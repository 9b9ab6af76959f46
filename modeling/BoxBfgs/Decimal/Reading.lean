import BoxBfgs.Text.Blank
import BoxBfgs.Text.Digit

namespace BoxBfgs.Decimal

open Text

/-- Digits with single underscores between them: the digits read and what follows them. -/
def digitRun : List Char → List Char × List Char
  | [] => ([], [])
  | [c] => if c.isDigit then ([c], []) else ([], [c])
  | c :: d :: rest =>
      if c.isDigit then
        if d == '_' then
          match rest with
          | e :: _ => if e.isDigit then let (ds, tail) := digitRun rest; (c :: ds, tail) else ([c], d :: rest)
          | [] => ([c], d :: rest)
        else let (ds, tail) := digitRun (d :: rest); (c :: ds, tail)
      else ([], c :: d :: rest)

def value (ds : List Char) : Nat := ds.foldl (fun n c => 10 * n + (c.toNat - 48)) 0

/-- A leading sign: whether it is a minus, and the rest. -/
def sign : List Char → Bool × List Char
  | '-' :: cs => (true, cs)
  | '+' :: cs => (false, cs)
  | cs => (false, cs)

/-- An exponent that fills the rest of the text, or no exponent at all. -/
def exponent? : List Char → Option Int
  | [] => some 0
  | c :: cs =>
      if c == 'e' || c == 'E' then
        let (minus, ds) := sign cs
        match digitRun ds with
        | ([], _) => none
        | (run, []) => some (if minus then -(value run : Int) else value run)
        | _ => none
      else none

/-- `coefficient * 10 ^ exponent` as the nearest double. Beyond a thousand places the answer is zero or
infinite, so the exponent is cut there. -/
def toFloat (coefficient : Nat) (exponent : Int) : Float :=
  let lead := exponent + (Nat.toDigits 10 coefficient).length
  if coefficient = 0 then 0.0
  else if lead > 1000 then 1.0 / 0.0
  else if lead < -1000 then 0.0
  else if exponent < 0 then Float.ofScientific coefficient true exponent.natAbs
  else Float.ofScientific coefficient false exponent.natAbs

def magnitude? (cs : List Char) : Option Float :=
  match String.ofList (cs.map Char.toLower) with
  | "inf" => some (1.0 / 0.0)
  | "infinity" => some (1.0 / 0.0)
  | "nan" => some (0.0 / 0.0)
  | _ =>
      match digitRun cs with
      | (whole, '.' :: rest) =>
          let (part, tail) := digitRun rest
          if whole.isEmpty && part.isEmpty then none
          else (exponent? tail).map fun e => toFloat (value (whole ++ part)) (e - part.length)
      | ([], _) => none
      | (whole, tail) => (exponent? tail).map fun e => toFloat (value whole) e

/-- The characters of a text without the white space around it, its digits of any script made plain. -/
def plain (s : String) : List Char := (trimmed isSpace s.toList).map plainDigit

/-- A text that is a number: white space around it, a sign, digits with a point and an exponent, or the name of an
infinity or of what is not a number. -/
def read? (s : String) : Option Float :=
  let (minus, cs) := sign (plain s)
  (magnitude? cs).map fun a => if minus then -a else a

def maxDigits : Nat := 4300

def readInt? (s : String) : Option Int :=
  let (minus, cs) := sign (plain s)
  match digitRun cs with
  | ([], _) => none
  | (ds, []) =>
      if maxDigits < ds.length then none else some (if minus then -(value ds : Int) else value ds)
  | _ => none

end BoxBfgs.Decimal
