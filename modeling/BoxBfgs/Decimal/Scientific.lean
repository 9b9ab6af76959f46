import BoxBfgs.Decimal.Binary
import BoxBfgs.Decimal.Rounding

namespace BoxBfgs.Decimal

def special? (a : Float) : Option String :=
  if a.isNaN then some "nan"
  else if a.isInf then some (if a < 0 then "-inf" else "inf")
  else none

def signed (a : Float) (body : String) : String := if Binary.negative a then "-" ++ body else body

def pointed : List Char → List Char
  | [] => []
  | [c] => [c]
  | c :: cs => c :: '.' :: cs

def magnitudeOf (a : Float) : Nat × Nat :=
  match Binary.ofFloat? a with
  | some b => b.quotient
  | none => (0, 1)

/-- One digit before the point and `places` behind it, rounded from the exact value with a half going to the
even neighbour. -/
def scientific (places : Nat) (a : Float) : String :=
  match special? a with
  | some s => s
  | none =>
      let (num, den) := magnitudeOf a
      if num = 0 then
        signed a (String.ofList (pointed (List.replicate (places + 1) '0')) ++ "e+00")
      else
        let r := significant num den places
        signed a (String.ofList (pointed (digits r.coefficient)) ++ "e" ++ exponentText (r.exponent + places))

/-- `places` digits behind the point, however large the number is. -/
def fixed (places : Nat) (a : Float) : String :=
  match special? a with
  | some s => s
  | none =>
      let (num, den) := magnitudeOf a
      let ds := digits (roundDiv (num * Nat.pow 10 places) den)
      let padded := List.replicate (places + 1 - ds.length) '0' ++ ds
      let whole := padded.take (padded.length - places)
      let rest := padded.drop (padded.length - places)
      signed a (String.ofList (if rest.isEmpty then whole else whole ++ '.' :: rest))

def dropZeros (cs : List Char) : List Char := (cs.reverse.dropWhile (· == '0')).reverse

/-- `precision` significant digits, positional from `1e-4` up to `10 ^ precision`. Of those behind the point `tail`
tells which are kept. -/
def generalWith (tail : List Char → List Char) (precision : Nat) (a : Float) : String :=
  match special? a with
  | some s => s
  | none =>
      let (num, den) := magnitudeOf a
      let r := if num = 0 then ⟨0, 0⟩ else significant num den (precision - 1)
      let lead := if num = 0 then 0 else r.exponent + (precision - 1 : Nat)
      let ds := if num = 0 then List.replicate precision '0' else digits r.coefficient
      let body :=
        if -4 ≤ lead && lead < precision then
          if lead < 0 then "0." ++ String.ofList (List.replicate (lead.natAbs - 1) '0' ++ tail ds)
          else
            let whole := ds.take (lead.natAbs + 1)
            let rest := tail (ds.drop (lead.natAbs + 1))
            String.ofList (if rest.isEmpty then whole else whole ++ '.' :: rest)
        else String.ofList (pointed (ds.take 1 ++ tail (ds.drop 1))) ++ "e" ++ exponentText lead
      signed a body

/-- `precision` significant digits without the zeros at their end. -/
def general (precision : Nat) (a : Float) : String := generalWith dropZeros precision a

end BoxBfgs.Decimal
