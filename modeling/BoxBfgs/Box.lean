import BoxBfgs.Limit
import BoxBfgs.Vec

namespace BoxBfgs

/-- The points between two limits in each coordinate. -/
structure Box (α : Type) (n : Nat) where
  lower : Vector (Limit α) n
  upper : Vector (Limit α) n
deriving DecidableEq

namespace Box

variable {α : Type} [Scalar α] {n : Nat}

/-- The largest step a line search is offered where no limit stops it. -/
def bigStep : α := 10000000000.0

def project (b : Box α n) (x : Vector α n) : Vector α n :=
  .ofFn fun i => (b.upper.get i).lower ((b.lower.get i).raise (x.get i))

/-- Where a unit step down the gradient is projected to, relative to where it starts. -/
def projectedGradient (b : Box α n) (x g : Vector α n) : Vector α n := b.project (x - g) - x

def projectedGradientNorm (b : Box α n) (x g : Vector α n) : α := Vec.maxAbs (b.projectedGradient x g)

def roomAbove (b : Box α n) (x d : Vector α n) : List α :=
  (List.finRange n).filterMap fun (i : Fin n) =>
    if 0 < d.get i then (b.upper.get i).finite?.map fun u => (u - x.get i) / d.get i else none

def roomBelow (b : Box α n) (x d : Vector α n) : List α :=
  (List.finRange n).filterMap fun (i : Fin n) =>
    if d.get i < 0 then (b.lower.get i).finite?.map fun l => (l - x.get i) / d.get i else none

/-- The cap or the smallest of the steps, unless one of them is unordered. -/
def nearest (cap : α) : List α → α
  | [] => cap
  | a :: rest => Scalar.least cap (rest.foldl Scalar.minimum a)

/-- The largest step along `d` from `0` to `cap` that stays in the box. -/
def maxStep (b : Box α n) (x d : Vector α n) (cap : α) : α :=
  Scalar.greatest (nearest (nearest cap (b.roomAbove x d)) (b.roomBelow x d)) 0

def contains (b : Box α n) (x : Vector α n) (tol : α) : Bool :=
  (List.finRange n).all fun i =>
    ((b.lower.get i).shift (-tol)).atLeast (x.get i) && ((b.upper.get i).shift tol).atMost (x.get i)

def outside? (b : Box α n) (x : Vector α n) (tol : α) : Option (Fin n) :=
  let below := (List.finRange n).find? fun i => ((b.lower.get i).shift (-tol)).undercuts (x.get i)
  let above := (List.finRange n).find? fun i => ((b.upper.get i).shift tol).exceeds (x.get i)
  below.orElse fun _ => above

end Box

end BoxBfgs
