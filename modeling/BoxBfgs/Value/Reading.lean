import BoxBfgs.Value

namespace BoxBfgs.Value

def isSpace (c : Char) : Bool := c == ' ' || c == '\t' || c == '\n' || c == '\r'

def unspaced (cs : List Char) : List Char := cs.dropWhile isSpace

def hexDigit (c : Char) : Nat :=
  if c.isDigit then c.toNat - 48 else if 'a' ≤ c && c ≤ 'f' then c.toNat - 87 else c.toNat - 55

def hexValue (cs : List Char) : Nat := cs.foldl (fun n c => 16 * n + hexDigit c) 0

def escaped : Char → Nat
  | 'n' => 10
  | 't' => 9
  | 'r' => 13
  | 'b' => 8
  | 'f' => 12
  | c => c.toNat

def units : List Char → Option (List Nat × List Char)
  | [] => none
  | '"' :: rest => some ([], rest)
  | '\\' :: 'u' :: a :: b :: c :: d :: cs => (units cs).map fun (us, rest) => (hexValue [a, b, c, d] :: us, rest)
  | '\\' :: c :: cs => (units cs).map fun (us, rest) => (escaped c :: us, rest)
  | c :: cs => (units cs).map fun (us, rest) => (c.toNat :: us, rest)

/-- Code units as characters; the two halves of a pair are one character. -/
def joined : List Nat → List Char
  | [] => []
  | [a] => [Char.ofNat a]
  | a :: b :: us =>
      if 0xd800 ≤ a && a < 0xdc00 && 0xdc00 ≤ b && b < 0xe000 then
        Char.ofNat (0x10000 + (a - 0xd800) * 0x400 + (b - 0xdc00)) :: joined us
      else Char.ofNat a :: joined (b :: us)

def readText (cs : List Char) : Option (String × List Char) :=
  (units cs).map fun (us, rest) => (String.ofList (joined us), rest)

/-- A text in quotes; three of them are the numbers that have no digits. -/
def ofText : String → Value
  | "NaN" => .real (0.0 / 0.0)
  | "Infinity" => .real (1.0 / 0.0)
  | "-Infinity" => .real (-1.0 / 0.0)
  | s => .text s

def isNumeral (c : Char) : Bool := c.isDigit || c == '-' || c == '+' || c == '.' || c == 'e' || c == 'E'

/-- A numeral with a point or an exponent is a real number, another one an integer. -/
def ofNumeral? (cs : List Char) : Option Value :=
  let s := String.ofList cs
  if cs.any fun c => c == '.' || c == 'e' || c == 'E' then (Decimal.read? s).map .real
  else (Decimal.readInt? s).map .whole

mutual

def readValue : Nat → List Char → Option (Value × List Char)
  | 0, _ => none
  | fuel + 1, cs =>
      match unspaced cs with
      | 'n' :: 'u' :: 'l' :: 'l' :: rest => some (.null, rest)
      | 't' :: 'r' :: 'u' :: 'e' :: rest => some (.flag true, rest)
      | 'f' :: 'a' :: 'l' :: 's' :: 'e' :: rest => some (.flag false, rest)
      | '"' :: rest => (readText rest).map fun (s, rest) => (ofText s, rest)
      | '[' :: rest =>
          match unspaced rest with
          | ']' :: rest => some (.list [], rest)
          | rest => (readItems fuel [] rest).map fun (items, rest) => (.list items, rest)
      | '\x7b' :: rest =>
          match unspaced rest with
          | '\x7d' :: rest => some (.table [], rest)
          | rest => (readFields fuel [] rest).map fun (fields, rest) => (.table fields, rest)
      | cs => (ofNumeral? (cs.takeWhile isNumeral)).map fun v => (v, cs.dropWhile isNumeral)

/-- Values between commas up to a closing bracket, after those that were read already. -/
def readItems : Nat → List Value → List Char → Option (List Value × List Char)
  | 0, _, _ => none
  | fuel + 1, seen, cs =>
      (readValue fuel cs).bind fun (v, rest) =>
        match unspaced rest with
        | ',' :: rest => readItems fuel (v :: seen) rest
        | ']' :: rest => some ((v :: seen).reverse, rest)
        | _ => none

/-- Names and values between commas up to a closing brace, after those that were read already. -/
def readFields : Nat → List (String × Value) → List Char → Option (List (String × Value) × List Char)
  | 0, _, _ => none
  | fuel + 1, seen, cs =>
      match unspaced cs with
      | '"' :: rest =>
          (readText rest).bind fun (name, rest) =>
            match unspaced rest with
            | ':' :: rest =>
                (readValue fuel rest).bind fun (v, rest) =>
                  match unspaced rest with
                  | ',' :: rest => readFields fuel ((name, v) :: seen) rest
                  | '\x7d' :: rest => some (((name, v) :: seen).reverse, rest)
                  | _ => none
            | _ => none
      | _ => none

end

/-- The value that a text begins with. Every second step at least takes a character. -/
def read? (cs : List Char) : Option Value := (readValue (2 * cs.length + 2) cs).map Prod.fst

end BoxBfgs.Value
