import BoxBfgs.Tensor.Basic

namespace BoxBfgs.Tensor

variable {β γ δ : Type}

/-- The length that two are stretched to: a single row is repeated, other lengths have to agree. -/
def commonLength? (m n : Nat) : Option Nat :=
  if m = n then some m else if m = 1 then some n else if n = 1 then some m else none

def deepen (rank : Nat) (shape : List Nat) : List Nat := List.replicate (rank - shape.length) 1 ++ shape

def commonShape? (s u : List Nat) : Option (List Nat) :=
  let rank := max s.length u.length
  ((deepen rank s).zip (deepen rank u)).mapM fun (m, n) => commonLength? m n

def commonShapes? (shapes : List (List Nat)) : Option (List Nat) := shapes.foldlM commonShape? []

/-- The entries of one shape repeated to fill another one of the same rank. -/
def repeated : List Nat → List Nat → List β → List β
  | m :: s, n :: u, l =>
      let rows := (parts (room s) m l).flatMap (repeated s u)
      if m = n then rows else (List.replicate n rows).flatten
  | _, _, l => l

def stretch (shape : List Nat) (t : Tensor β) : Tensor β :=
  ⟨shape, repeated (deepen shape.length t.shape) shape t.entries⟩

def zipWith? (f : β → γ → δ) (a : Tensor β) (b : Tensor γ) : Option (Tensor δ) :=
  (commonShape? a.shape b.shape).map fun s => ⟨s, List.zipWith f (a.stretch s).entries (b.stretch s).entries⟩

theorem commonLength?_self (n : Nat) : commonLength? n n = some n := by simp [commonLength?]

theorem commonShape?_self (s : List Nat) : commonShape? s s = some s := by
  have h : ∀ s : List Nat, (s.zip s).mapM (fun p : Nat × Nat => commonLength? p.1 p.2) = some s := by
    intro s
    induction s with
    | nil => rfl
    | cons n s ih => simp [commonLength?_self, ih]
  simpa [commonShape?, deepen] using h s

end BoxBfgs.Tensor
