import BoxBfgs.Fault

namespace BoxBfgs.Problem

variable {α : Type} [Scalar α]

def sum (l : List α) : α := l.foldl (· + ·) 0

/-- The sum of functions of one coordinate each, from the value and the slope of every one of them. -/
def total (parts : List (α × α)) : α × List α := (sum (parts.map Prod.fst), parts.map Prod.snd)

/-- The value and the slope of a polynomial with the given coefficients, the constant first. -/
def polynomial (coefficients : List α) (x : α) : α × α :=
  coefficients.foldr (fun c (p, d) => (p * x + c, d * x + p)) (0, 0)

/-- A polynomial in each coordinate. Each coordinate has to have one. -/
def polynomials? (coefficients : List (List α)) (x : List α) : Option (α × List α) :=
  if coefficients.length < x.length then none else some (total (List.zipWith polynomial coefficients x))

/-- One with the sign of a number, zero for zero and for what is unordered. -/
def sign (a : α) : α := if 0 < a then 1 else if a < 0 then -1 else 0

/-- The weighted distances of the coordinates from a centre. Each coordinate has to have both. -/
def distances? (weights centre x : List α) : Option (α × List α) :=
  if weights.length < x.length || centre.length < x.length then none
  else some (total (List.zipWith (fun w d => (w * Scalar.abs d, w * sign d)) weights (List.zipWith (· - ·) x centre)))

/-- The sum of `√(1 + x²)`. -/
def hyperbolas (x : List α) : α × List α :=
  total (x.map fun a => let r := Scalar.sqrt (1 + a * a); (r, a / r))

/-- The sum of `1 / x + x`, which zero has no part in. -/
def reciprocals (x : List α) : Except Arithmetic α :=
  if x.any (· == 0) then .error .divisionByZero else .ok (sum (x.map fun a => 1 / a + a))

/-- The gradient of `reciprocals`; a square that vanishes is too small for it. -/
def reciprocalSlopes (x : List α) : Except Arithmetic (List α) :=
  if x.any fun a => a * a == 0 then .error .divisionByZero else .ok (x.map fun a => 1 - 1 / (a * a))

end BoxBfgs.Problem
