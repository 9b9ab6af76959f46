import BoxBfgs.Search.Wolfe

namespace BoxBfgs

structure LineOptions (α : Type) where
  c1 : α
  c2 : α
  tolerance : α
  evaluations : Cap

def LineOptions.standard {α : Type} [Scalar α] : LineOptions α :=
  { c1 := 0.0001, c2 := 0.9, tolerance := 0.1, evaluations := .whole 20 }

/-- What comes back from a trial: a point with its value and the slope along the line, or the reason why there
is none. -/
inductive Attempt (α P : Type) where
  | answered (point : P) (value slope : α)
  | failed (why : Failure)
  | refused (limit : Cap)
  | escaped (why : Fault α)

structure Found (α P : Type) where
  step : α
  point : Option P
  evaluations : Nat
  outcome : Outcome
  fault : Option (Fault α) := none

namespace Found

variable {α P : Type} (f : Found α P)

def accepted : Bool := f.point.isSome

def warned : Bool := f.accepted && f.outcome != .converged

end Found

/-- The best trial so far: it has sufficient decrease, and no later one is as good. -/
structure Kept (α P : Type) where
  step : α
  point : P
  value : α

namespace Line

variable {α P τ : Type} [Scalar α]

def finish (kept : Option (Kept α P)) (evaluations : Nat) (outcome : Outcome) (fault : Option (Fault α)) :
    Found α P :=
  match kept with
  | some k => { step := k.step, point := some k.point, evaluations, outcome, fault }
  | none => { step := 0, point := none, evaluations, outcome, fault }

/-- A trial is kept when it lies below the start with sufficient decrease and not above the one kept so far. -/
def keep (s : Wolfe α) (kept : Option (Kept α P)) (step : α) (point : P) (value : α) : Option (Kept α P) :=
  let better : Bool := match kept with
    | none => true
    | some k => value ≤ k.value
  if value < s.value && s.sufficientDecrease step value && better then some { step, point, value } else kept

def loop (evaluate : α → τ → Attempt α P × τ) (cap : Cap) :
    Nat → Wolfe α → Option (Kept α P) → Nat → τ → Except (Fault α) (Found α P) × τ
  | 0, _, kept, count, world => (.ok (finish kept count .tooManyEvaluations none), world)
  | fuel + 1, s, kept, count, world =>
      match evaluate s.step world with
      | (.failed why, world) =>
          let found := finish kept (count + 1) .objectiveFailed (some (.failure why))
          (.ok { found with point := none }, world)
      | (.refused limit, world) => (.ok (finish kept count .budgetExhausted (some (.budget limit))), world)
      | (.escaped why, world) => (.error why, world)
      | (.answered point value slope, world) =>
          let kept := keep s kept s.step point value
          match s.update value slope with
          | (.error why, _) => (.error (.arithmetic why), world)
          | (.ok (some .converged), _) =>
              (.ok { step := s.step, point := some point, evaluations := count + 1, outcome := .converged }, world)
          | (.ok (some outcome), _) => (.ok (finish kept (count + 1) outcome none), world)
          | (.ok none, s) =>
              if cap.reached (count + 1) then (.ok (finish kept (count + 1) .tooManyEvaluations none), world)
              else loop evaluate cap fuel s kept (count + 1) world

def search (evaluate : α → τ → Attempt α P × τ) (o : LineOptions α) (value slope step longest : α) (world : τ) :
    Except (Fault α) (Found α P) × τ :=
  match Wolfe.start value slope (Scalar.least step longest) longest o.c1 o.c2 o.tolerance 0 with
  | .error why => (.error (.unmet (.search why)), world)
  | .ok s => loop evaluate o.evaluations (max 1 o.evaluations.rounds) s none 0 world

end Line

end BoxBfgs
