import BoxBfgs.Memory
import BoxBfgs.Path

namespace BoxBfgs

/-- The first minimum of the model along the path, with `c = Wᵀ(point - x)` and the coordinates that are not
held at a limit there. -/
structure CauchyPoint (α : Type) (n k : Nat) where
  x : Vector α n
  c : Vector α (k + k)
  free : Vector Bool n
  t : α
  passed : Nat
deriving DecidableEq

namespace Cauchy

variable {α : Type} [Scalar α] {n : Nat}

/-- The search between two breakpoints: `p = Wᵀd` and `c = Wᵀz` for the direction `d` and the displacement
`z`, and the first and second derivative of the model along `d`. -/
structure Walk (α : Type) (n k : Nat) where
  x : Vector α n
  d : Vector α n
  free : Vector Bool n
  p : Vector α (k + k)
  c : Vector α (k + k)
  f1 : α
  f2 : α
  t : α
  passed : Nat
  /-- How far on the minimum lies if the direction stays; `none` where the model has none. -/
  ahead : Option α

structure Setting (α : Type) (n : Nat) where
  box : Box α n
  memory : Memory α n
  x : Vector α n
  g : Vector α n
  /-- The least second derivative that is used after a breakpoint. -/
  floor : α

/-- Breakpoints in the order of their times, of equal ones the smaller coordinate first. -/
def earlier (a b : α × Fin n) : Bool := a.1 < b.1 || (a.1 == b.1 && a.2 ≤ b.2)

def breakpoints (legs : Vector (Leg α) n) : List (α × Fin n) :=
  ((List.finRange n).filterMap fun i => (legs.get i).breakpoint?.map fun t => (t, i)).mergeSort earlier

/-- Holds coordinate `i` at the limit that it reaches at time `t`. -/
def pass (s : Setting α n) (t : α) (i : Fin n) (w : Walk α n s.memory.size) :
    Except (Unsolved α) (Walk α n s.memory.size) := do
  let dt := t - w.t
  let limit := (if w.d.get i > 0 then s.box.upper.get i else s.box.lower.get i).value
  let z := limit - s.x.get i
  let g := s.g.get i
  let theta := s.memory.theta
  let c := w.c + Vec.scale dt w.p
  let row := s.memory.rowW i
  let solved ← s.memory.solveMiddle row
  let f1 := w.f1 + (dt * w.f2 + g * g + theta * g * z - g * Vec.dot solved c)
  let f2 := w.f2 - (theta * g * g + 2.0 * g * Vec.dot solved w.p + g * g * Vec.dot solved row)
  let f2 := Scalar.greatest s.floor f2
  return {
    x := Vec.put w.x i limit
    d := Vec.put w.d i 0
    free := Vec.put w.free i false
    p := w.p + Vec.scale g row
    c, f1, f2, t
    passed := w.passed + 1
    ahead := some (-f1 / f2) }

def walk (s : Setting α n) : List (α × Fin n) → Walk α n s.memory.size →
    Except (Unsolved α) (Walk α n s.memory.size)
  | [], w => .ok w
  | (t, i) :: rest, w =>
      let stops : Bool := match w.ahead with
        | some a => a < t - w.t
        | none => false
      if stops then .ok w else (pass s t i w).bind (walk s rest)

def finish (s : Setting α n) (w : Walk α n s.memory.size) : CauchyPoint α n s.memory.size :=
  let ahead := match w.ahead with
    | some a => if Scalar.isFinite a then a else -w.f1 / s.floor
    | none => -w.f1 / s.floor
  let ahead := Scalar.greatest ahead 0
  let t := w.t + ahead
  let moved : Vector α n := .ofFn fun i => if w.d.get i != 0 then s.x.get i + t * w.d.get i else w.x.get i
  { x := s.box.project moved, c := w.c + Vec.scale ahead w.p, free := w.free, t, passed := w.passed }

def start (s : Setting α n) (legs : Vector (Leg α) n) (f2 : α) : Walk α n s.memory.size :=
  let d := legs.map Leg.speed
  let f1 := -Vec.dot d d
  { x := s.x, d, free := legs.map Leg.starts, p := s.memory.transposeW d, c := .replicate _ 0, f1, f2, t := 0,
    passed := 0, ahead := if f2 > 0 then some (-f1 / f2) else none }

def point (b : Box α n) (m : Memory α n) (x g : Vector α n) : Except (Unsolved α) (CauchyPoint α n m.size) :=
  let legs := b.legs x g
  let d := legs.map Leg.speed
  if !Vec.anyNonzero d then
    .ok { x, c := .replicate _ 0, free := legs.map Leg.starts, t := 0, passed := 0 }
  else
    let p := m.transposeW d
    (m.solveMiddle p).bind fun solved =>
      let f2 := m.theta * Vec.dot d d - Vec.dot p solved
      let floor := if f2 > 0 then Scalar.epsilon * f2 else Scalar.epsilon
      let s : Setting α n := { box := b, memory := m, x, g, floor }
      (walk s (breakpoints legs) (start s legs f2)).map (finish s)

end Cauchy

end BoxBfgs
