import BoxBfgs.Checked.Box

namespace BoxBfgs.Bounds

variable {α : Type} [Scalar α] {n : Nat} (b : Bounds α n)

def lowers : Tensor (Limit α) := .ofVector b.lower

def uppers : Tensor (Limit α) := .ofVector b.upper

/-- The nearest point of the box to one that is stretched to its dimension. -/
def projectAll (x : Tensor α) : Except (Fault α) (Tensor α) := Checked.project x b.lowers b.uppers

/-- A point next to the box, which is widened by a tolerance for each coordinate or a single one for all. -/
def widened (x tol : Tensor α) : Except (Fault α) (Checked.Aligned α × α) :=
  match tol.shape, tol.entries with
  | [], [a] => (Checked.align x x b.lowers b.uppers).map fun p => (p, a)
  | _, _ => do
      let lower ← Tensor.zipWith (fun (l : Limit α) a => l.shift (-a)) b.lowers tol
      let upper ← Tensor.zipWith (fun (u : Limit α) a => u.shift a) b.uppers tol
      return (← Checked.align x x lower upper, 0)

def containsAll (x tol : Tensor α) : Except (Fault α) Bool :=
  (b.widened x tol).map fun (p, a) => p.box.contains p.x a

/-- Refuses a point that lies outside of the widened box, naming the first coordinate that does. -/
def checkFeasible (x tol : Tensor α) : Except (Fault α) Unit :=
  (b.widened x tol).bind fun (p, a) =>
    match p.box.outside? p.x a with
    | none => .ok ()
    | some i =>
        match x.row? i.val, b.lower.toList[i.val]?, b.upper.toList[i.val]? with
        | some y, some l, some u => .error (.unmet (.feasible i y l u))
        | _, _, _ => .error .outOfRange

end BoxBfgs.Bounds
