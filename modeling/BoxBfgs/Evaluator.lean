import BoxBfgs.Objective
import BoxBfgs.Search.Line

namespace BoxBfgs

structure Evaluated (X α : Type) (n : Nat) where
  x : X
  f : α
  g : Vector α n
deriving DecidableEq

/-- The evaluations that were made, with a limit on their number, the length that gradients are expected to have, and the
first of the best answers. -/
structure Evaluator (X α : Type) (n : Nat) where
  budget : Cap
  expected : Value := .whole n
  count : Nat := 0
  best : Option (Evaluated X α n) := none

namespace Evaluator

variable {X α σ : Type} [Scalar α] {n : Nat}

def exhausted (e : Evaluator X α n) : Bool := e.budget.reached e.count

def better (best : Option (Evaluated X α n)) (p : Evaluated X α n) : Option (Evaluated X α n) :=
  match best with
  | none => some p
  | some b => if p.f < b.f then some p else some b

/-- The answer of evaluation `k`, if it is a finite number with a finite gradient of the right length. -/
def check (e : Evaluator X α n) (k : Nat) (x : X) (f : α) (g : Tensor α) : Except (Fault α) (Evaluated X α n) :=
  match if e.expected.isWhole g.entries.length then g.vector? n else none with
  | none => .error (.failure (.gradientLength g.entries.length e.expected k))
  | some g =>
      if Scalar.isFinite f && Vec.isFinite g then .ok { x, f, g } else .error (.failure (.nonFinite k))

def call (e : Evaluator X α n) (o : Objective α σ) (view : X → Tensor α) (x : X) (world : σ) :
    Except (Fault α) (Evaluated X α n) × Evaluator X α n × σ :=
  if e.exhausted then (.error (.budget e.budget), e, world)
  else
    let k := e.count + 1
    let counted : Evaluator X α n := { e with count := k }
    match o.call (view x) world with
    | (.answer (f, g), world) =>
        match e.check k x f g with
        | .ok p => (.ok p, { counted with best := better e.best p }, world)
        | .error why => (.error why, counted, world)
    | (.abort text, world) => (.error (.failure (.raised k text)), counted, world)
    | (.arithmetic _ text, world) => (.error (.failure (.raised k text)), counted, world)
    | (.fault why, world) => (.error why, counted, world)

def attempt (e : Evaluator X α n) (o : Objective α σ) (view : X → Tensor α) (direction : Vector α n) (x : X)
    (world : σ) : Attempt α (Evaluated X α n) × Evaluator X α n × σ :=
  match e.call o view x world with
  | (.ok p, rest) => (.answered p p.f (Vec.dot p.g direction), rest)
  | (.error (.failure why), rest) => (.failed why, rest)
  | (.error (.budget limit), rest) => (.refused limit, rest)
  | (.error why, rest) => (.escaped why, rest)

end Evaluator

end BoxBfgs
