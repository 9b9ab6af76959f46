import BoxBfgs.Box

namespace BoxBfgs

/-- One coordinate of the path that starts down the gradient and holds still at the limits: the time when it
stops, and its speed until then. -/
structure Leg (α : Type) where
  stop : Limit α
  speed : α
deriving DecidableEq

namespace Leg

variable {α : Type} [Scalar α]

/-- A coordinate at a limit that the gradient pushes it against does not start. -/
def of (x g : α) (lower upper : Limit α) : Leg α :=
  let d := -g
  if (lower.atMost x && d ≤ 0) || (upper.atLeast x && d ≥ 0) then ⟨.fin 0, 0⟩
  else if d > 0 then
    match upper.finite? with
    | some u => ⟨.fin ((x - u) / g), d⟩
    | none => ⟨.posInf, d⟩
  else if d < 0 then
    match lower.finite? with
    | some l => ⟨.fin ((x - l) / g), d⟩
    | none => ⟨.posInf, d⟩
  else ⟨.posInf, d⟩

def starts (leg : Leg α) : Bool := leg.stop.undercuts 0

def breakpoint? (leg : Leg α) : Option α := if leg.starts then leg.stop.finite? else none

end Leg

def Box.legs {α : Type} [Scalar α] {n : Nat} (b : Box α n) (x g : Vector α n) : Vector (Leg α) n :=
  .ofFn fun i => .of (x.get i) (g.get i) (b.lower.get i) (b.upper.get i)

end BoxBfgs
