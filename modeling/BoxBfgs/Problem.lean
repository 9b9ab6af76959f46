import BoxBfgs.Dense

namespace BoxBfgs.Problem

variable {α : Type} [Scalar α] {n : Nat}

def sphere (x : Vector α n) : α × Vector α n := (Vec.dot x x, Vec.scale 2.0 x)

def square (a : α) : α := a * a

/-- The sum of `100 (x_{i+1} - x_i²)² + (1 - x_i)²` over neighbouring coordinates. -/
def rosenbrockValue : {n : Nat} → Vector α n → α
  | 0, _ => 0
  | n + 1, x =>
      (Vector.ofFn fun i : Fin n =>
        100.0 * square (x.get i.succ - square (x.get i.castSucc)) + square (1 - x.get i.castSucc)).sum

/-- An inner coordinate takes part in two terms, as the first of one and the second of the other. -/
def rosenbrockGradient (x : Vector α n) : Vector α n :=
  .ofFn fun i =>
    let a := x.get i
    let asFirst := if h : i.val + 1 < n then -400.0 * a * (x.get ⟨i.val + 1, h⟩ - square a) - 2.0 * (1 - a) else 0
    let asSecond := if i.val = 0 then 0 else 200.0 * (a - square (x.get ⟨i.val - 1, by omega⟩))
    asFirst + asSecond

def rosenbrock (x : Vector α n) : α × Vector α n := (rosenbrockValue x, rosenbrockGradient x)

/-- `½ x·Qx - b·x` for a symmetric `Q`. -/
def quadratic (q : Dense α n n) (b x : Vector α n) : α × Vector α n :=
  let qx := q.mulVec x
  (Vec.dot (Vec.scale 0.5 x) qx - Vec.dot b x, qx - b)

end BoxBfgs.Problem
