import BoxBfgs.Scalar

namespace BoxBfgs.Vec

variable {α β : Type} {n : Nat}

def cons (a : β) (v : Vector β n) : Vector β (n + 1) := .ofFn (Fin.cases a v.get)

def tail (v : Vector β (n + 1)) : Vector β n := .ofFn fun i => v.get i.succ

def gather {m : Nat} (v : Vector β n) (places : Vector (Fin n) m) : Vector β m := places.map v.get

def put (v : Vector β n) (i : Fin n) (a : β) : Vector β n := v.set i a

def exchange (v : Vector β n) (i j : Fin n) : Vector β n := v.swap i j

/-- Writes each value at its place; of two values for one place the later one stays. -/
def scatter {m : Nat} (v : Vector β n) (places : Vector (Fin n) m) (values : Vector β m) : Vector β n :=
  (places.zip values).foldl (fun u (i, a) => put u i a) v

def places (test : Fin n → Bool) : List (Fin n) := (List.finRange n).filter test

def ofList (l : List β) : Vector β l.length := ⟨l.toArray, rfl⟩

/-- A list of exactly `n` entries. -/
def ofList? (n : Nat) (l : List β) : Option (Vector β n) :=
  if h : l.length = n then some ⟨l.toArray, by simpa using h⟩ else none

variable [Scalar α]

def dot (x y : Vector α n) : α := (Vector.zipWith (· * ·) x y).sum

def scale (a : α) (x : Vector α n) : Vector α n := x.map fun b => a * b

def divide (x : Vector α n) (a : α) : Vector α n := x.map fun b => b / a

/-- The largest magnitude, zero for no entries and unordered as soon as one entry is. -/
def maxAbs (x : Vector α n) : α := x.foldl (fun m a => Scalar.maximum m (Scalar.abs a)) 0

def isFinite (x : Vector α n) : Bool := x.all Scalar.isFinite

def anyNonzero (x : Vector α n) : Bool := x.any fun a => a != 0

theorem get_eq_getElem (v : Vector β n) (i : Fin n) : v.get i = v[i.val] := rfl

@[simp] theorem get_ofFn (f : Fin n → β) (i : Fin n) : (Vector.ofFn f).get i = f i := by simp [get_eq_getElem]

@[simp] theorem get_map {γ : Type} (f : β → γ) (v : Vector β n) (i : Fin n) : (v.map f).get i = f (v.get i) := by
  simp [get_eq_getElem]

@[simp] theorem get_cons_zero (a : β) (v : Vector β n) : (cons a v).get 0 = a := by simp [cons]

@[simp] theorem get_cons_succ (a : β) (v : Vector β n) (i : Fin n) : (cons a v).get i.succ = v.get i := by
  simp [cons]

@[simp] theorem get_tail (v : Vector β (n + 1)) (i : Fin n) : (tail v).get i = v.get i.succ := by simp [tail]

@[simp] theorem get_scale (a : α) (x : Vector α n) (i : Fin n) : (scale a x).get i = a * x.get i := by simp [scale]

@[simp] theorem get_divide (x : Vector α n) (a : α) (i : Fin n) : (divide x a).get i = x.get i / a := by
  simp [divide]

end BoxBfgs.Vec
