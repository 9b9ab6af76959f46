import BoxBfgs.Problem
import BoxBfgs.Tensor.Product

namespace BoxBfgs.Problem

variable {α : Type} [Scalar α]

def sphereOf (x : Tensor α) : Except (Fault α) (α × Tensor α) :=
  match x.shape with
  | [_] =>
      let r := sphere (Vec.ofList x.entries)
      .ok (r.1, .ofVector r.2)
  | _ => ((x.matmul x).bind Tensor.number).map fun a => (a, x.scale 2.0)

/-- The chained function of each column: the sum of the values, and the gradients as columns. -/
def rosenbrockOf (x : Tensor α) : Except (Fault α) (α × Tensor α) :=
  match x.shape with
  | [] => .error .outOfRange
  | n :: inner =>
      let count := Tensor.room inner
      let rows := Tensor.parts count n x.entries
      let answers := (List.range count).map fun j =>
        let r := rosenbrock (Vec.ofList (rows.filterMap (·[j]?)))
        (r.1, r.2.toList)
      .ok ((answers.map Prod.fst).foldl (· + ·) 0,
        ⟨x.shape, (List.range n).flatMap fun i => answers.filterMap (·.2[i]?)⟩)

def quadraticOf (q b : Tensor α) : Except (Fault α) (Tensor α → Except (Fault α) (α × Tensor α)) :=
  match b.shape with
  | [n] =>
      if q.shape = [n, n] then
        .ok fun x => do
          match q.dense? n n, b.vector? n, if x.rank = 1 then x.vector? n else none with
          | some q, some b, some x =>
              let r := quadratic q b x
              return (r.1, .ofVector r.2)
          | _, _, _ =>
              let qx ← q.matmul x
              let value ← (← (x.scale 0.5).matmul qx).sub (← b.matmul x)
              return (← value.number, ← qx.sub b)
      else .error (.unmet (.quadratic q.shape b.shape))
  | _ => .error (.unmet (.quadratic q.shape b.shape))

end BoxBfgs.Problem
