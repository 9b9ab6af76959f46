import BoxBfgs.Dense

namespace BoxBfgs

/-- Entries in rows of rows: the lengths from the outside in, and all entries in order. -/
structure Tensor (β : Type) where
  shape : List Nat
  entries : List β
deriving DecidableEq

namespace Tensor

variable {β γ : Type}

def room (shape : List Nat) : Nat := shape.foldr Nat.mul 1

def single (b : β) : Tensor β := ⟨[], [b]⟩

def ofList (l : List β) : Tensor β := ⟨[l.length], l⟩

def ofVector {n : Nat} (v : Vector β n) : Tensor β := ⟨[n], v.toList⟩

def ofDense {r c : Nat} (a : Dense β r c) : Tensor β := ⟨[r, c], a.rows.toList.flatMap Vector.toList⟩

def replicate (shape : List Nat) (b : β) : Tensor β := ⟨shape, List.replicate (room shape) b⟩

def rank (t : Tensor β) : Nat := t.shape.length

def map (f : β → γ) (t : Tensor β) : Tensor γ := ⟨t.shape, t.entries.map f⟩

def parts (size : Nat) : Nat → List β → List (List β)
  | 0, _ => []
  | n + 1, l => l.take size :: parts size n (l.drop size)

/-- The rows along the outermost length; a single entry has none. -/
def rows (t : Tensor β) : List (Tensor β) :=
  match t.shape with
  | [] => []
  | n :: inner => (parts (room inner) n t.entries).map fun l => ⟨inner, l⟩

def ofRows (inner : List Nat) (rows : List (Tensor β)) : Tensor β := ⟨rows.length :: inner, rows.flatMap entries⟩

def vector? (n : Nat) (t : Tensor β) : Option (Vector β n) := Vec.ofList? n t.entries

def dense? (r c : Nat) (t : Tensor β) : Option (Dense β r c) :=
  ((parts c r t.entries).mapM (Vec.ofList? c)).bind fun rows => (Vec.ofList? r rows).map Dense.mk

/-- The places between the given lengths in the order of the entries. -/
def places : List Nat → List (List Nat)
  | [] => [[]]
  | n :: shape => (List.range n).flatMap fun i => (places shape).map (i :: ·)

def offset : List Nat → List Nat → Nat
  | _ :: shape, i :: place => i * room shape + offset shape place
  | _, _ => 0

/-- The entries with their places read backwards, so that rows become columns. -/
def transpose (t : Tensor β) : Tensor β :=
  let read := t.entries.toArray
  ⟨t.shape.reverse, (places t.shape.reverse).filterMap fun place => read[offset t.shape place.reverse]?⟩

/-- The lengths that so many entries fill. A single negative length stands for what the others leave. -/
def fitLengths? (count : Nat) (lengths : List Int) : Option (List Nat) :=
  let known := room ((lengths.filter (0 ≤ ·)).map Int.toNat)
  match lengths.filter (· < 0) with
  | [] => if known = count then some (lengths.map Int.toNat) else none
  | [_] =>
      if known ≠ 0 && count % known = 0 then
        some (lengths.map fun k => if k < 0 then count / known else k.toNat)
      else none
  | _ => none

def reshape? (lengths : List Int) (t : Tensor β) : Option (Tensor β) :=
  (fitLengths? t.entries.length lengths).map fun shape => ⟨shape, t.entries⟩

@[simp] theorem entries_ofVector {n : Nat} (v : Vector β n) : (ofVector v).entries = v.toList := rfl

@[simp] theorem shape_ofVector {n : Nat} (v : Vector β n) : (ofVector v).shape = [n] := rfl

@[simp] theorem vector?_ofVector {n : Nat} (v : Vector β n) : (ofVector v).vector? n = some v := by
  simp [vector?, ofVector, Vec.ofList?, Vector.toList]

end Tensor

end BoxBfgs
