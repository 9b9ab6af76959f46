import BoxBfgs.Cauchy

namespace BoxBfgs

/-- A point that minimises the model over the free coordinates as far as the box allows, seen from `x`. -/
structure SubspaceStep (α : Type) (n : Nat) where
  x : Vector α n
  direction : Vector α n
  alpha : α
  free : Vector Bool n
deriving DecidableEq

namespace SubspaceStep

def truncated {α : Type} [Scalar α] {n : Nat} (s : SubspaceStep α n) : Bool := s.alpha < 1

end SubspaceStep

namespace Subspace

variable {α : Type} [Scalar α] {n k : Nat}

/-- The gradient of the model at a Cauchy point, `g + B(point - x)`. -/
def modelGradient (m : Memory α n) (x g : Vector α n) (p : CauchyPoint α n m.size) :
    Except (Unsolved α) (Vector α n) :=
  let r := g + Vec.scale m.theta (p.x - x)
  if m.isEmpty then .ok r else (m.solveMiddle p.c).map fun u => r - m.timesW u

/-- The middle matrix of the inverse on some coordinates, `K - VᵀV / theta` with the rows `V` of `W`. -/
def system (m : Memory α n) {f : Nat} (places : Vector (Fin n) f) :
    Dense α (m.size + m.size) (m.size + m.size) :=
  let v := m.rowsW places
  .symmetrize (.ofFn fun i j =>
    m.middle.entry i j - Vec.dot (v.rows.map (·.get i)) (v.rows.map (·.get j)) / m.theta)

/-- Solves `(theta I - V K⁻¹ Vᵀ) delta = -r` on some coordinates. -/
def newtonStep (m : Memory α n) {f : Nat} (places : Vector (Fin n) f) (r : Vector α f) :
    Except (Unsolved α) (Vector α f) :=
  let delta := Vec.divide (-r) m.theta
  if m.isEmpty then .ok delta
  else
    let v := m.rowsW places
    match Factor.ofMatrix (system m places) with
    | .error why => .error (.breakdown (.matrix why))
    | .ok factor =>
        match factor.solve? (v.transposeMulVec r) with
        | none => .error .nonFinite
        | some u => .ok (delta - Vec.divide (v.mulVec u) (m.theta * m.theta))

def restrict (b : Box α n) {f : Nat} (places : Vector (Fin n) f) : Box α f :=
  ⟨Vec.gather b.lower places, Vec.gather b.upper places⟩

/-- Moves the chosen coordinates of a point by `delta`, as far as the box allows and never farther. -/
def advance (b : Box α n) (x : Vector α n) (p : CauchyPoint α n k) {f : Nat} (places : Vector (Fin n) f)
    (delta : Vector α f) : SubspaceStep α n :=
  let box := restrict b places
  let start := Vec.gather p.x places
  let alpha := Scalar.least 1 (box.maxStep start delta 1)
  let point := Vec.scatter p.x places (box.project (start + Vec.scale alpha delta))
  { x := point, direction := point - x, alpha, free := p.free }

def minimize (b : Box α n) (m : Memory α n) (x g : Vector α n) (p : CauchyPoint α n m.size) :
    Except (Unsolved α) (SubspaceStep α n) :=
  let list := Vec.places p.free.get
  if list.isEmpty then .ok { x := p.x, direction := p.x - x, alpha := 1, free := p.free }
  else
    let places := Vec.ofList list
    (modelGradient m x g p).bind fun r =>
      (newtonStep m places (Vec.gather r places)).map (advance b x p places)

end Subspace

end BoxBfgs
