import BoxBfgs.Decimal.Scientific

namespace BoxBfgs.Decimal

/-- Whether `c * 10 ^ unit` reads back as the double: it lies no farther from it than the middle to the next
double, and on the middle only when the double's mantissa is even. -/
def readsBack (b : Binary) (c : Nat) (unit : Int) : Bool :=
  let (num, den) := b.quotient
  let (step, stepDen) := b.quarter
  -- everything over the common denominator `den * stepDen`
  let value := num * stepDen
  let above := 2 * step * den
  let below := (if b.lowerGapHalved then 1 else 2) * step * den
  let (cn, cd) := if unit < 0 then (c, Nat.pow 10 unit.natAbs) else (c * Nat.pow 10 unit.natAbs, 1)
  let candidate := cn * (den * stepDen)
  let low := (value - below) * cd
  let high := (value + above) * cd
  if b.mantissa % 2 = 0 then low ≤ candidate && candidate ≤ high else low < candidate && candidate < high

/-- On the grid of `10 ^ unit`, the neighbour of the value that reads back; of two the nearer. -/
def onGrid? (b : Binary) (unit : Int) : Option Number :=
  let (num, den) := b.quotient
  let (n, d) := inUnits num den unit
  let low := n / d
  let near := roundDiv n d
  let far := if near = low then low + 1 else low
  if readsBack b near unit then some ⟨near, unit⟩
  else if readsBack b far unit then some ⟨far, unit⟩
  else none

/-- The fewest digits that read back as the same double, the nearest of those; seventeen always do. -/
def shortest (b : Binary) : Number :=
  let (num, den) := b.quotient
  let lead := magnitude num den
  let found := (List.range 17).findSome? fun (places : Nat) => onGrid? b (lead - (places : Int))
  (found.getD ⟨0, 0⟩).trimmed 400

/-- How a number is written that has to read back: positionally from `10 ^ (-4)` up to `10 ^ 16`, with a
point in any case, and with an exponent of two digits or more elsewhere. -/
def text (a : Float) : String :=
  match special? a with
  | some s => s
  | none =>
      match Binary.ofFloat? a with
      | none => ""
      | some b =>
          if b.mantissa = 0 then signed a "0.0"
          else
            let s := shortest b
            let ds := digits s.coefficient
            let lead := s.exponent + ds.length - 1
            let body :=
              if -4 ≤ lead && lead < 16 then
                if lead < 0 then "0." ++ String.ofList (List.replicate (lead.natAbs - 1) '0' ++ ds)
                else
                  let whole := (ds ++ List.replicate (lead.natAbs + 1 - ds.length) '0').take (lead.natAbs + 1)
                  let rest := ds.drop (lead.natAbs + 1)
                  String.ofList (whole ++ '.' :: (if rest.isEmpty then ['0'] else rest))
              else String.ofList (pointed ds) ++ "e" ++ exponentText lead
            signed a body

end BoxBfgs.Decimal
