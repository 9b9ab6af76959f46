import BoxBfgs.Fault
import BoxBfgs.Tensor.Choice

namespace BoxBfgs.Tensor

variable {α : Type} [Scalar α]

def dotEntries (x y : List α) : α := (List.zipWith (· * ·) x y).foldl (· + ·) 0

def core? (shape : List Nat) : Option (List Nat × Nat × Nat) :=
  match shape.reverse with
  | c :: r :: front => some (front.reverse, r, c)
  | _ => none

/-- The product of the matrices that two tensors end in, those in front stretched to one shape. -/
def mulCores (a b : Tensor α) : Except (Fault α) (Tensor α) :=
  match core? a.shape, core? b.shape with
  | some (outer, r, n), some (outer', n', c) =>
      if n ≠ n' then .error .mismatch
      else
        (Fault.fitting (commonShape? outer outer')).map fun front =>
          let count := room front
          let rowsOf (l : List α) : List (List α) := parts n r l
          let columnsOf (l : List α) : List (List α) := (List.range c).map fun j => (parts c n l).filterMap (·[j]?)
          let as := parts (r * n) count (a.stretch (front ++ [r, n])).entries
          let bs := parts (n * c) count (b.stretch (front ++ [n, c])).entries
          ⟨front ++ [r, c], (as.zip bs).flatMap fun (x, y) =>
            let columns := columnsOf y
            (rowsOf x).flatMap fun row => columns.map (dotEntries row)⟩
  | _, _ => .error .mismatch

/-- The product of matrices. A single row of numbers stands as a row on the left and as a column on the right. -/
def matmul (a b : Tensor α) : Except (Fault α) (Tensor α) :=
  if a.rank = 0 || b.rank = 0 then .error .mismatch
  else
    let left : Tensor α := if a.rank = 1 then ⟨1 :: a.shape, a.entries⟩ else a
    let right : Tensor α := if b.rank = 1 then ⟨b.shape ++ [1], b.entries⟩ else b
    (mulCores left right).map fun p =>
      match core? p.shape with
      | some (front, r, c) =>
          ⟨front ++ (if a.rank = 1 then [] else [r]) ++ (if b.rank = 1 then [] else [c]), p.entries⟩
      | none => p

/-- The inner product as a number, which it is for two numbers or two rows of one length. -/
def dot (a b : Tensor α) : Except (Fault α) α :=
  match a.shape, b.shape with
  | [], [] => .ok (dotEntries a.entries b.entries)
  | [], _ => Fault.unfit
  | _, [] => Fault.unfit
  | [m], [n] => if m = n then .ok (dotEntries a.entries b.entries) else .error .mismatch
  | s, u =>
      let inner := match core? u with
        | some (_, r, _) => r
        | none => u.getLastD 0
      if s.getLastD 0 = inner then Fault.unfit else .error .mismatch

def number (t : Tensor α) : Except (Fault α) α :=
  match t.shape, t.entries with
  | [], [a] => .ok a
  | _, _ => Fault.unfit

def zipWith {β γ δ : Type} (f : β → γ → δ) (a : Tensor β) (b : Tensor γ) : Except (Fault α) (Tensor δ) :=
  Fault.fitting (zipWith? f a b)

def add (a b : Tensor α) : Except (Fault α) (Tensor α) := zipWith (· + ·) a b

def sub (a b : Tensor α) : Except (Fault α) (Tensor α) := zipWith (· - ·) a b

def scale (a : α) (t : Tensor α) : Tensor α := t.map fun b => a * b

def divide (t : Tensor α) (a : α) : Tensor α := t.map fun b => b / a

/-- One tensor taken off another one in its own place: what is taken off is stretched, what stays is not. A single number
has no place of its own. -/
def subFrom (a b : Tensor α) : Except (Fault α) (Tensor α) :=
  (a.sub b).bind fun d => if d.shape = a.shape || a.rank = 0 then .ok d else .error .mismatch

end BoxBfgs.Tensor
