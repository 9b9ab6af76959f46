import BoxBfgs.Vec

namespace BoxBfgs

structure Dense (α : Type) (r c : Nat) where
  rows : Vector (Vector α c) r

namespace Dense

variable {α : Type} {r c n : Nat}

def ofFn (f : Fin r → Fin c → α) : Dense α r c := ⟨.ofFn fun i => .ofFn (f i)⟩

def entry (a : Dense α r c) (i : Fin r) (j : Fin c) : α := (a.rows.get i).get j

@[simp] theorem entry_ofFn (f : Fin r → Fin c → α) (i : Fin r) (j : Fin c) : (ofFn f).entry i j = f i j := by
  simp [ofFn, entry]

def transpose (a : Dense α r c) : Dense α c r := ofFn fun i j => a.entry j i

/-- The symmetric matrix whose lower triangle is read off `f`. -/
def ofLower (f : Fin n → Fin n → α) : Dense α n n := ofFn fun i j => if j ≤ i then f i j else f j i

/-- The same exchange of two places done to the rows and to the columns. -/
def exchange (a : Dense α n n) (p q : Fin n) : Dense α n n :=
  ofFn fun i j =>
    let at' (k : Fin n) : Fin n := if k = p then q else if k = q then p else k
    a.entry (at' i) (at' j)

variable [Scalar α]

def mulVec (a : Dense α r c) (v : Vector α c) : Vector α r := a.rows.map fun row => Vec.dot row v

/-- The transpose applied to a vector, by a sum over the rows. -/
def transposeMulVec (a : Dense α r c) (v : Vector α r) : Vector α c :=
  .ofFn fun j => Vec.dot (.ofFn fun i => a.entry i j) v

def isFinite (a : Dense α r c) : Bool := a.rows.all Vec.isFinite

def maxAbs (a : Dense α r c) : α := a.rows.foldl (fun m row => Scalar.maximum m (Vec.maxAbs row)) 0

def symmetrize (a : Dense α n n) : Dense α n n := ofFn fun i j => 0.5 * (a.entry i j + a.entry j i)

end Dense

end BoxBfgs
