import BoxBfgs.Text.Word
import BoxBfgs.Value

namespace BoxBfgs.Text

/-- A number in a format: not there, written out, or left to an argument. -/
inductive Measure where
  | absent
  | given (n : Nat)
  | argument
deriving DecidableEq, Repr

/-- A place in a format where an argument goes: `%` with the name of the argument in parentheses, flags, a width, a
precision and the letter that says how the argument is written. All but the letter may be missing. -/
structure Place where
  key : Option String
  flags : List Char
  width : Measure
  precision : Measure
  letter : Char
deriving DecidableEq, Repr

inductive Piece where
  | plain (c : Char)
  | place (p : Place)
deriving DecidableEq, Repr

/-! Reading a format -/

def natOf (ds : List Char) : Nat := ds.foldl (fun n c => 10 * n + (c.toNat - 48)) 0

/-- The characters up to the parenthesis that closes `depth` inner ones and this one, and those behind it. -/
def enclosed? : Nat → List Char → Option (List Char × List Char)
  | _, [] => none
  | 0, ')' :: cs => some ([], cs)
  | depth + 1, ')' :: cs => (enclosed? depth cs).map fun (key, rest) => (')' :: key, rest)
  | depth, '(' :: cs => (enclosed? (depth + 1) cs).map fun (key, rest) => ('(' :: key, rest)
  | depth, c :: cs => (enclosed? depth cs).map fun (key, rest) => (c :: key, rest)

def measure : List Char → Measure × List Char
  | '*' :: cs => (.argument, cs)
  | cs =>
      let ds := cs.takeWhile Char.isDigit
      (if ds.isEmpty then .absent else .given (natOf ds), cs.dropWhile Char.isDigit)

/-- A point with a measure behind it; a point alone stands for zero. -/
def pointMeasure : List Char → Measure × List Char
  | '.' :: cs =>
      match measure cs with
      | (.absent, rest) => (.given 0, rest)
      | r => r
  | cs => (.absent, cs)

def flagMarks : List Char := ['-', '+', ' ', '#', '0']

/-- The place that the characters behind a `%` describe, and the characters behind it. One letter for the length of an
argument may stand before the last letter and means nothing. -/
def place? (cs : List Char) : Option (Place × List Char) :=
  let keyed : Option (Option String × List Char) := match cs with
    | '(' :: rest => (enclosed? 0 rest).map fun (key, rest) => (some (String.ofList key), rest)
    | _ => some (none, cs)
  keyed.bind fun (key, cs) =>
    let flags := cs.takeWhile flagMarks.contains
    let (width, cs) := measure (cs.dropWhile flagMarks.contains)
    let (precision, cs) := pointMeasure cs
    let cs := match cs with
      | 'h' :: rest => rest
      | 'l' :: rest => rest
      | 'L' :: rest => rest
      | _ => cs
    match cs with
    | letter :: rest => some ({ key, flags, width, precision, letter }, rest)
    | [] => none

/-- The pieces of a format, if each `%` begins a place or is written twice; `fuel` bounds the number of characters. -/
def pieces? : Nat → List Char → Option (List Piece)
  | _, [] => some []
  | 0, _ :: _ => none
  | fuel + 1, '%' :: '%' :: cs => (pieces? fuel cs).map (.plain '%' :: ·)
  | fuel + 1, '%' :: cs => (place? cs).bind fun (p, rest) => (pieces? fuel rest).map (.place p :: ·)
  | fuel + 1, c :: cs => (pieces? fuel cs).map (.plain c :: ·)

/-! Arguments -/

/-- The arguments that wait for a place, and the table that places with a name look into, if there is one. -/
structure Supply where
  table : Option (List (String × Value))
  waiting : List Value

namespace Supply

/-- Arguments one after another. A table alone that is not empty can be looked into. -/
def ofList : List Value → Supply
  | [.table (f :: fields)] => { table := some (f :: fields), waiting := [.table (f :: fields)] }
  | args => { table := none, waiting := args }

def ofTable (fields : List (String × Value)) : Supply := { table := some fields, waiting := [.table fields] }

def next? (s : Supply) : Option (Value × Supply) :=
  match s.waiting with
  | [] => none
  | v :: rest => some (v, { s with waiting := rest })

/-- The value of a name waits in place of everything else. -/
def choose? (s : Supply) : Option String → Option Supply
  | none => some s
  | some key => (s.table.bind fun fields => Value.field? fields key).map fun v => { s with waiting := [v] }

def maxMeasure : Nat := 0x7fffffff

def measure? (s : Supply) : Measure → Option (Option Int × Supply)
  | .absent => some (none, s)
  | .given n => if n ≤ maxMeasure then some (some n, s) else none
  | .argument =>
      match s.next? with
      | some (.whole i, s) => if i.natAbs ≤ maxMeasure then some (some i, s) else none
      | some (.flag b, s) => some (some (if b then 1 else 0), s)
      | _ => none

/-- Whether nothing is left over. What waits of a table may be left. -/
def spent (s : Supply) : Bool := s.table.isSome || s.waiting.isEmpty

end Supply

/-! Writing a place -/

/-- What is written at a place: a sign and marks that stay in front, and the rest. Only numbers can be filled up with
zeros. -/
structure Written where
  front : List Char
  body : List Char
  numeric : Bool

namespace Written

def word (cs : List Char) : Written := ⟨[], cs, false⟩

/-- Fills up with spaces on the right or on the left, or with zeros behind the front. -/
def padded (w : Written) (left zeros : Bool) (width : Nat) : List Char :=
  let missing := width - (w.front.length + w.body.length)
  if left then w.front ++ w.body ++ List.replicate missing ' '
  else if zeros && w.numeric then w.front ++ List.replicate missing '0' ++ w.body
  else List.replicate missing ' ' ++ w.front ++ w.body

end Written

def signMark (flags : List Char) (negative : Bool) : List Char :=
  if negative then ['-'] else if flags.contains '+' then ['+'] else if flags.contains ' ' then [' '] else []

/-- An integer in some base with a number of digits at least, and a mark of the base if the flags ask for one. -/
def integerWritten (p : Place) (least base : Nat) (mark : List Char) (i : Int) : Written :=
  let ds := Nat.toDigits base i.natAbs
  let ds := List.replicate (least - ds.length) '0' ++ ds
  { front := signMark p.flags (i < 0) ++ (if p.flags.contains '#' then mark else [])
    body := if p.letter == 'X' then ds.map Char.toUpper else ds
    numeric := true }

/-- A point behind the digits before the exponent, unless there is one or there are no digits. -/
def withPoint (cs : List Char) : List Char :=
  if cs.contains '.' || !cs.any Char.isDigit then cs
  else cs.takeWhile (· != 'e') ++ '.' :: cs.dropWhile (· != 'e')

def realText (p : Place) (precision : Nat) (a : Float) : String :=
  match p.letter.toLower with
  | 'e' => Decimal.scientific precision a
  | 'f' => Decimal.fixed precision a
  | _ => Decimal.generalWith (if p.flags.contains '#' then id else Decimal.dropZeros) (max 1 precision) a

def realWritten (p : Place) (precision : Nat) (a : Float) : Written :=
  let cs := (realText p precision a).toList
  let cs := if p.flags.contains '#' then withPoint cs else cs
  let cs := if p.letter.isUpper then cs.map Char.toUpper else cs
  { front := signMark p.flags (cs.head? == some '-'), body := cs.dropWhile (· == '-'), numeric := true }

def amount? : Value → Option Float
  | .text _ => none
  | v => v.number.toOption

def wholeAmount? : Value → Option Int
  | .text _ => none
  | v => v.integer.toOption

def exactAmount? (v : Value) : Option Int := v.index.toOption

def maxCharacter : Nat := 0x10ffff

def character? (v : Value) : Option Char :=
  match v with
  | .text s => match s.toList with
    | [c] => some c
    | _ => none
  | v => (exactAmount? v).bind fun i => if 0 ≤ i && i ≤ maxCharacter then some (Char.ofNat i.toNat) else none

def write? (p : Place) (precision : Option Nat) (v : Value) : Option Written :=
  let cut (s : String) : Written := .word (match precision with
    | some k => s.toList.take k
    | none => s.toList)
  let least := precision.getD 0
  match p.letter with
  | 's' => some (cut v.shown)
  | 'r' => some (cut v.quoted)
  | 'a' => some (cut (asciiOnly v.quoted))
  | 'c' => (character? v).map fun c => .word [c]
  | 'd' => (wholeAmount? v).map (integerWritten p least 10 [])
  | 'i' => (wholeAmount? v).map (integerWritten p least 10 [])
  | 'u' => (wholeAmount? v).map (integerWritten p least 10 [])
  | 'o' => (exactAmount? v).map (integerWritten p least 8 ['0', 'o'])
  | 'x' => (exactAmount? v).map (integerWritten p least 16 ['0', 'x'])
  | 'X' => (exactAmount? v).map (integerWritten p least 16 ['0', 'X'])
  | letter =>
      if ['e', 'f', 'g'].contains letter.toLower then (amount? v).map (realWritten p (precision.getD 6)) else none

/-- The text at a place, and the arguments that are left. A width below zero means that the text stands on the left,
a precision below zero is zero. -/
def fill? (p : Place) (s : Supply) : Option (List Char × Supply) := do
  let s ← s.choose? p.key
  let (width, s) ← s.measure? p.width
  let (precision, s) ← s.measure? p.precision
  let (v, s) ← s.next?
  let w ← write? p (precision.map Int.toNat) v
  let width := width.getD 0
  return (w.padded (p.flags.contains '-' || width < 0) (p.flags.contains '0') width.natAbs, s)

/-- The pieces with the arguments filled in, provided that none is missing or left over. -/
def fillAll? : List Piece → Supply → Option (List Char)
  | [], s => if s.spent then some [] else none
  | .plain c :: rest, s => (fillAll? rest s).map (c :: ·)
  | .place p :: rest, s => (fill? p s).bind fun (cs, s) => (fillAll? rest s).map (cs ++ ·)

def fillText? (text : String) (s : Supply) : Option String :=
  (pieces? text.length text.toList).bind fun ps => (fillAll? ps s).map String.ofList

/-- A text with arguments at its places; without arguments the text is taken as it is. -/
def format? (text : String) (args : List Value) : Option String :=
  if args.isEmpty then some text else fillText? text (.ofList args)

/-! Places with a name -/

/-- What follows a measure in digits of any script, if there is one in front. -/
def pastMeasure? : List Char → Option (List Char)
  | '*' :: cs => some cs
  | c :: cs => if isDecimal c then some (cs.dropWhile isDecimal) else none
  | [] => none

/-- A letter that says how an argument is written, small or capital; the long s and the i with its dot on or off in both
cases count as well. -/
def isConversion (c : Char) : Bool :=
  "diouxefgcrsa%".toList.contains c.toLower || [0x130, 0x131, 0x17f].contains c.toNat

/-- Whether a place with a name begins behind a `%`: a word in parentheses, flags, measures, and at once a letter that
says how the argument is written. -/
def beginsNamed : List Char → Bool
  | '(' :: cs =>
      match cs.takeWhile inWord, cs.dropWhile inWord with
      | _ :: _, ')' :: rest =>
          let rest := rest.dropWhile flagMarks.contains
          let rest := (pastMeasure? rest).getD rest
          let rest := match rest with
            | '.' :: behind => (pastMeasure? behind).getD rest
            | _ => rest
          rest.head?.any isConversion
      | _, _ => false
  | _ => false

def hasNamed : List Char → Bool
  | [] => false
  | '%' :: cs => beginsNamed cs || hasNamed cs
  | _ :: cs => hasNamed cs

end BoxBfgs.Text
