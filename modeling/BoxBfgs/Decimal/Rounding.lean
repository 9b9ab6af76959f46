namespace BoxBfgs.Decimal

/-- The natural nearest to `num / den`; a half goes to the even neighbour. -/
def roundDiv (num den : Nat) : Nat :=
  let low := num / den
  let twice := 2 * (num % den)
  if twice < den then low
  else if den < twice then low + 1
  else if low % 2 = 0 then low else low + 1

def digits (n : Nat) : List Char := Nat.toDigits 10 n

/-- The power of ten that leads `num / den`: `10 ^ e ≤ num / den < 10 ^ (e + 1)`, for a positive quotient. -/
def magnitude (num den : Nat) : Int :=
  if den ≤ num then ((digits (num / den)).length : Int) - 1
  else
    let places := (digits (den / num)).length
    if den ≤ num * Nat.pow 10 (places - 1) then -((places : Int) - 1) else -(places : Int)

/-- `num / den` in units of `10 ^ unit`, again as a quotient. -/
def inUnits (num den : Nat) (unit : Int) : Nat × Nat :=
  if unit < 0 then (num * Nat.pow 10 unit.natAbs, den) else (num, den * Nat.pow 10 unit.natAbs)

structure Number where
  coefficient : Nat
  exponent : Int
deriving DecidableEq, Repr

namespace Number

/-- The same number with no zero at the end of its coefficient; `fuel` bounds the zeros dropped. -/
def trimmed (fuel : Nat) (a : Number) : Number :=
  match fuel with
  | 0 => a
  | fuel + 1 =>
      if a.coefficient ≠ 0 && a.coefficient % 10 = 0 then trimmed fuel ⟨a.coefficient / 10, a.exponent + 1⟩ else a

end Number

/-- `num / den` rounded to `places + 1` significant digits, for a positive quotient. -/
def significant (num den places : Nat) : Number :=
  let unit := magnitude num den - places
  let (n, d) := inUnits num den unit
  let c := roundDiv n d
  if c = Nat.pow 10 (places + 1) then ⟨Nat.pow 10 places, unit + 1⟩ else ⟨c, unit⟩

def exponentText (e : Int) : String :=
  let ds := digits e.natAbs
  let padded := if ds.length < 2 then '0' :: ds else ds
  String.ofList ((if e < 0 then '-' else '+') :: padded)

def padLeft (width : Nat) (s : String) : String := String.ofList (List.replicate (width - s.length) ' ') ++ s

end BoxBfgs.Decimal
