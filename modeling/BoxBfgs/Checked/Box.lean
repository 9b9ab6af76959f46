import BoxBfgs.Path
import BoxBfgs.Tensor.Product

namespace BoxBfgs

namespace Checked

variable {α : Type} [Scalar α]

def maxAbs (t : Tensor α) : α := Vec.maxAbs (Vec.ofList t.entries)

/-- Points and limits side by side, all of them stretched to one shape. -/
structure Aligned (α : Type) where
  shape : List Nat
  n : Nat
  x : Vector α n
  g : Vector α n
  box : Box α n

def align (x g : Tensor α) (lower upper : Tensor (Limit α)) : Except (Fault α) (Aligned α) :=
  (Fault.fitting (Tensor.commonShapes? [x.shape, g.shape, lower.shape, upper.shape])).bind fun shape =>
    let n := Tensor.room shape
    match (x.stretch shape).vector? n, (g.stretch shape).vector? n, (lower.stretch shape).vector? n,
        (upper.stretch shape).vector? n with
    | some x, some g, some lower, some upper => .ok { shape, n, x, g, box := { lower, upper } }
    | _, _, _, _ => .error .mismatch

def Aligned.shaped {β : Type} (a : Aligned α) (v : Vector β a.n) : Tensor β := ⟨a.shape, v.toList⟩

def project (x : Tensor α) (lower upper : Tensor (Limit α)) : Except (Fault α) (Tensor α) :=
  (align x x lower upper).map fun a => a.shaped (a.box.project a.x)

def projectedGradient (x g : Tensor α) (lower upper : Tensor (Limit α)) : Except (Fault α) (Tensor α) :=
  (align x g lower upper).map fun a => a.shaped (a.box.projectedGradient a.x a.g)

def projectedGradientNorm (x g : Tensor α) (lower upper : Tensor (Limit α)) : Except (Fault α) α :=
  (projectedGradient x g lower upper).map maxAbs

/-- The smallest of the steps, unordered as soon as one of them is. -/
def smallest : List α → Except (Fault α) α
  | [] => .error .mismatch
  | a :: rest => .ok (rest.foldl Scalar.minimum a)

/-- The step cut off where one of the limits stops a coordinate that moves. As soon as one is stopped, the lengths of
all that is looked at have to agree. -/
def cutOff (moves : α → Bool) (x d : Tensor α) (limits : Tensor (Limit α)) (step : α) : Except (Fault α) α := do
  let stopped ← Tensor.zipWith (fun a (l : Limit α) => moves a && l.isFinite) d limits
  if !stopped.entries.any id then return step
  let limits ← Fault.inRange (limits.choose? stopped)
  let starts ← Fault.inRange (x.choose? stopped)
  let ways ← (limits.map Limit.value).sub starts
  let speeds ← Fault.inRange (d.choose? stopped)
  let steps ← Tensor.zipWith (· / ·) ways speeds
  return Scalar.least step (← smallest steps.entries)

/-- The largest step to the cap that stays in the box. A side that stops nothing may have any shape that the direction
can be stretched to. -/
def maxStep (x d : Tensor α) (lower upper : Tensor (Limit α)) (cap : α) : Except (Fault α) α :=
  if x.shape = d.shape && lower.shape = d.shape && upper.shape = d.shape then
    (align x d lower upper).map fun a => a.box.maxStep a.x a.g cap
  else
    (cutOff (0 < ·) x d upper cap).bind fun step =>
      (cutOff (· < 0) x d lower step).map fun step => Scalar.greatest step 0

/-- The times when the coordinates stop on the path from a point down a gradient, and their speeds. -/
structure Stops (α : Type) where
  t : Tensor (Limit α)
  d : Tensor α

/-- The path from a point down a gradient. All lengths have to agree, unless none of the coordinates is looked at. A
single number has no coordinates to hold. -/
def stops (x g : Tensor α) (lower upper : Tensor (Limit α)) : Except (Fault α) (Stops α) :=
  (align x g lower upper).bind fun a =>
    let agrees (shape : List Nat) : Bool := shape.length == a.shape.length && Tensor.covers a.shape shape
    if !(agrees x.shape && agrees upper.shape && agrees g.shape && agrees lower.shape) then .error .outOfRange
    else if g.rank = 0 then Fault.unfit
    else if a.n = 0 then .ok { t := .replicate x.shape .posInf, d := g.map fun b => -b }
    else
      let legs := a.box.legs a.x a.g
      .ok { t := a.shaped (legs.map Leg.stop), d := a.shaped (legs.map Leg.speed) }

/-- The mean of a matrix and its transpose; what is no square is stretched to one. -/
def symmetrize (t : Tensor α) : Except (Fault α) (Tensor α) :=
  match t.shape with
  | [r, c] =>
      match if r = c then t.dense? c c else none with
      | some a => .ok (.ofDense a.symmetrize)
      | none => (t.add t.transpose).map (Tensor.scale 0.5)
  | _ => (t.add t.transpose).map (Tensor.scale 0.5)

end Checked

end BoxBfgs
