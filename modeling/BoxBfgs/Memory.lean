import BoxBfgs.Factor

namespace BoxBfgs

/-- A step and the change of the gradient along it. -/
structure Pair (α : Type) (n : Nat) where
  s : Vector α n
  y : Vector α n
deriving DecidableEq

inductive Breakdown (α : Type) where
  | scaling (theta : α)
  | matrix (why : Singularity)
deriving DecidableEq

inductive Unsolved (α : Type) where
  | breakdown (why : Breakdown α)
  | nonFinite
deriving DecidableEq

/-- The most recent pairs, oldest first, with the products between them. The model is
`theta I - W K⁻¹ Wᵀ` with `W = [Y, theta S]` and the middle matrix `K`. -/
structure Memory (α : Type) (n : Nat) where
  depth : Int
  capacity : Nat := depth.toNat
  pairs : List (Pair α n) := []
  /-- Rows of the products `s·y`. -/
  sty : List (List α) := []
  /-- Rows of the products `s·s`. -/
  sts : List (List α) := []
  theta : α
  /-- The factor of the middle matrix, as long as no pair was added since it was computed. -/
  cached : Option (Factor α (pairs.length + pairs.length)) := none

inductive Pushed (α : Type) (n : Nat) where
  | stored (m : Memory α n)
  | refused
  | noRoom

namespace Memory

variable {α : Type} [Scalar α] {n : Nat}

def maxDepth : Nat := 17

def empty (n depth : Nat) : Memory α n := { depth, capacity := depth, theta := 1 }

abbrev size (m : Memory α n) : Nat := m.pairs.length

def isEmpty (m : Memory α n) : Bool := m.pairs.isEmpty

def clear (m : Memory α n) : Memory α n := { depth := m.depth, capacity := m.capacity, theta := 1 }

/-- The curvature along a pair has to exceed rounding, measured by the squared change of the gradient. -/
def admissible (p : Pair α n) : Bool :=
  let sy := Vec.dot p.s p.y
  let yy := Vec.dot p.y p.y
  Scalar.isFinite sy && Scalar.isFinite yy && sy > Scalar.epsilon * yy

def dropOldest (m : Memory α n) : Memory α n :=
  { depth := m.depth, capacity := m.capacity, pairs := m.pairs.drop 1,
    sty := (m.sty.drop 1).map fun row => row.drop 1, sts := (m.sts.drop 1).map fun row => row.drop 1,
    theta := m.theta }

/-- The products of the stored pairs bordered by those with one more pair. -/
def append (m : Memory α n) (p : Pair α n) : Memory α n :=
  let styRow := (m.pairs ++ [p]).map fun q => Vec.dot q.y p.s
  let styColumn := m.pairs.map fun q => Vec.dot q.s p.y
  let stsRow := (m.pairs ++ [p]).map fun q => Vec.dot q.s p.s
  { depth := m.depth, capacity := m.capacity, pairs := m.pairs ++ [p],
    sty := m.sty.zipWith (fun row a => row ++ [a]) styColumn ++ [styRow],
    sts := m.sts.zipWith (fun row a => row ++ [a]) stsRow ++ [stsRow],
    theta := Vec.dot p.y p.y / Vec.dot p.y p.s }

/-- Stores an admissible pair, in the place of the oldest one when the memory is full. -/
def push (m : Memory α n) (p : Pair α n) : Pushed α n :=
  if !admissible p then .refused
  else
    let kept := if m.size = m.depth then m.dropOldest else m
    if kept.size < kept.capacity then .stored (kept.append p) else .noRoom

def product (rows : List (List α)) (i j : Nat) : α := (rows.getD i []).getD j 0

variable (m : Memory α n)

def styMatrix : Dense α m.size m.size := .ofFn fun i j => product m.sty i j

def stsMatrix : Dense α m.size m.size := .ofFn fun i j => product m.sts i j

def sMatrix : Dense α n m.size := .ofFn fun i j => (m.pairs.get j).s.get i

def yMatrix : Dense α n m.size := .ofFn fun i j => (m.pairs.get j).y.get i

/-- A vector with an entry of `Y`'s part and one of `S`'s part for each pair. -/
def blocks (upper lower : Fin m.size → α) : Vector α (m.size + m.size) :=
  .ofFn (Fin.addCases upper lower)

/-- `Wᵀ v`. -/
def transposeW (v : Vector α n) : Vector α (m.size + m.size) :=
  m.blocks (fun j => Vec.dot (m.pairs.get j).y v) (fun j => m.theta * Vec.dot (m.pairs.get j).s v)

def rowW (i : Fin n) : Vector α (m.size + m.size) :=
  m.blocks (fun j => (m.pairs.get j).y.get i) (fun j => m.theta * (m.pairs.get j).s.get i)

def rowsW {f : Nat} (places : Vector (Fin n) f) : Dense α f (m.size + m.size) := ⟨places.map m.rowW⟩

def matrixW : Dense α n (m.size + m.size) := m.rowsW (.ofFn id)

/-- `W u`. -/
def timesW (u : Vector α (m.size + m.size)) : Vector α n :=
  .ofFn fun i =>
    Vec.dot (Vector.ofFn fun j => (m.pairs.get j).y.get i) (Vector.ofFn fun j => u.get (Fin.castAdd m.size j)) +
      m.theta *
        Vec.dot (Vector.ofFn fun j => (m.pairs.get j).s.get i) (Vector.ofFn fun j => u.get (Fin.natAdd m.size j))

/-- `K = [[-D, Lᵀ], [L, theta SᵀS]]`, with the diagonal `D` and the strictly lower triangle `L` of `SᵀY`. -/
def middle : Dense α (m.size + m.size) (m.size + m.size) :=
  .ofFn fun i j =>
    Fin.addCases
      (fun a => Fin.addCases
        (fun b => if a = b then -product m.sty a a else 0)
        (fun b => if a < b then product m.sty b a else 0) j)
      (fun a => Fin.addCases
        (fun b => if b < a then product m.sty a b else 0)
        (fun b => m.theta * product m.sts a b) j) i

def computeFactor : Except (Breakdown α) (Factor α (m.size + m.size)) :=
  if 0 < m.theta && Scalar.isFinite m.theta then
    match Factor.ofMatrix m.middle with
    | .ok f => .ok f
    | .error why => .error (.matrix why)
  else .error (.scaling m.theta)

/-- The factor of the middle matrix, the one at hand if there is one. -/
def factor : Except (Breakdown α) (Factor α (m.size + m.size)) :=
  match m.cached with
  | some f => .ok f
  | none => m.computeFactor

/-- Keeps the factor of the middle matrix for later solves, if the matrix has one and a pair is stored. -/
def keepFactor : Memory α n :=
  if m.isEmpty then m
  else
    match m.factor with
    | .ok f => { m with cached := some f }
    | .error _ => m

/-- `K⁻¹ u`. -/
def solveMiddle (u : Vector α (m.size + m.size)) : Except (Unsolved α) (Vector α (m.size + m.size)) :=
  if m.isEmpty then .ok u
  else
    match m.factor with
    | .error why => .error (.breakdown why)
    | .ok f =>
        match f.solve? u with
        | some x => .ok x
        | none => .error .nonFinite

def hessianProduct (v : Vector α n) : Except (Unsolved α) (Vector α n) :=
  if m.isEmpty then .ok (Vec.scale m.theta v)
  else (m.solveMiddle (m.transposeW v)).map fun u => Vec.scale m.theta v - m.timesW u

/-- The curvature `s·y` along each pair, oldest first. -/
def curvatures : List α := (List.range m.size).map fun i => product m.sty i i

/-- The inverse of the model's matrix times `q`, for pairs with their curvatures listed newest first: each pair is taken
out of the vector on the way to the oldest one and put back on the way up. -/
def twoLoop (theta : α) : List (α × Pair α n) → Vector α n → Vector α n
  | [], q => Vec.divide q theta
  | (curvature, p) :: older, q =>
      let rho := 1 / curvature
      let a := rho * Vec.dot p.s q
      let r := twoLoop theta older (q - Vec.scale a p.y)
      r + Vec.scale (a - rho * Vec.dot p.y r) p.s

def inverseHessianProduct (v : Vector α n) : Vector α n :=
  twoLoop m.theta (m.curvatures.zip m.pairs).reverse v

end Memory

end BoxBfgs
