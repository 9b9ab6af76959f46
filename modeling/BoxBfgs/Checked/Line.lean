import BoxBfgs.Search.Line
import BoxBfgs.Search.Traced

namespace BoxBfgs.Checked

structure LineRequest where
  step : Value
  longest : Value
  c1 : Value := .real 0.0001
  c2 : Value := .real 0.9
  tolerance : Value := .real 0.1
  evaluations : Value := .whole 20

namespace LineRequest

variable (r : LineRequest)

def given (v : Value) : Except (Fault Float) Traced := Fault.liftMisread (Traced.ofValue v)

/-- Why the tolerance cannot be multiplied by the upper end of a bracket, which matters only when the bracket is compared
with it. Integers can always be multiplied. -/
def toleranceFault? (s : Wolfe Traced) : Option (Fault Float) :=
  match r.tolerance, s.high.whole? with
  | .text _, _ => some (.misread .unfit)
  | .whole _, some _ => none
  | v, _ => match v.number with
    | .ok _ => none
    | .error why => some (.misread why)

/-- Whether the two steps are no numbers but can be compared with each other all the same. -/
def beyondNumbers : Bool :=
  match r.step, r.longest with
  | .text _, .text _ | .list _, .list _ => true
  | _, _ => false

/-- The search at its start. The upper end of the second constant is looked at only when the first one is positive, and
the longest step has to be a double as soon as something is computed with it. Steps that are no numbers are found out
when they are compared with one. -/
def start (value slope : Float) : Except (Fault Float) (Wolfe Traced) := do
  let number (a : Float) : Traced := { value := a }
  let step ← if r.beyondNumbers then pure (number (0.0 / 0.0)) else given r.step
  let longest ← if r.beyondNumbers then pure (number (0.0 / 0.0)) else given r.longest
  let c1 ← given r.c1
  let c2 ← if 0 < c1 then given r.c2 else pure c1
  let tolerance := (given r.tolerance).toOption.getD { value := 0.0 / 0.0 }
  match Wolfe.start (number value) (number slope) (Scalar.least step longest) longest c1 c2 tolerance 0 with
  | .error why =>
      if r.beyondNumbers && why matches .stepRange _ _ _ then Fault.unfit
      else .error (.unmet (.searchGiven (why.map Traced.shown)))
  | .ok s => do
      let _ ← Fault.liftMisread r.longest.number
      let _ ← Fault.liftMisread s.step.shown.number
      return s

/-- Whether the bracket was compared with the tolerance to find the step at hand. -/
def measured (s : Wolfe Traced) : Bool := s.bracket.closed && !(s.step ≤ s.low || s.step ≥ s.high)

variable {P τ : Type}

def finish (kept : Option (Kept Traced P)) (evaluations : Nat) (outcome : Outcome) (fault : Option (Fault Float)) :
    Found Float P × Value :=
  let plain := kept.map fun k => ({ step := k.step.value, point := k.point, value := k.value.value } : Kept Float P)
  (Line.finish plain evaluations outcome fault, (kept.map fun k => k.step.shown).getD (.real 0.0))

def loop (evaluate : Float → τ → Attempt Float P × τ) :
    Nat → Wolfe Traced → Option (Kept Traced P) → Nat → τ → Except (Fault Float) (Found Float P × Value) × τ
  | 0, _, kept, count, world => (.ok (finish kept count .tooManyEvaluations none), world)
  | fuel + 1, s, kept, count, world =>
      match evaluate s.step.value world with
      | (.failed why, world) =>
          let (found, step) := finish kept (count + 1) .objectiveFailed (some (.failure why))
          (.ok ({ found with point := none }, step), world)
      | (.refused limit, world) => (.ok (finish kept count .budgetExhausted (some (.budget limit))), world)
      | (.escaped why, world) => (.error why, world)
      | (.answered point value slope, world) =>
          let kept := Line.keep s kept s.step point { value := value }
          match if s.bracket.closed then r.toleranceFault? s else none, s.update { value := value } { value := slope } with
          | some why, _ => (.error why, world)
          | none, (.error why, _) => (.error (.arithmetic why), world)
          | none, (.ok (some .converged), _) =>
              (.ok (finish (some { step := s.step, point, value := { value := value } }) (count + 1) .converged none), world)
          | none, (.ok (some outcome), _) => (.ok (finish kept (count + 1) outcome none), world)
          | none, (.ok none, s) =>
              match if measured s then r.toleranceFault? s else none, Cap.ofValue? r.evaluations with
              | some why, _ => (.error why, world)
              | none, none => (Fault.unfit, world)
              | none, some cap =>
                  if cap.reached (count + 1) then (.ok (finish kept (count + 1) .tooManyEvaluations none), world)
                  else loop evaluate fuel s kept (count + 1) world

/-- Searches a line that starts with the given value and slope, with the trials made by `evaluate`. The step that is
found is told as it was given, if it was. -/
def search (evaluate : Float → τ → Attempt Float P × τ) (value slope : Float) (world : τ) :
    Except (Fault Float) (Found Float P × Value) × τ :=
  match r.start value slope with
  | .error why => (.error why, world)
  | .ok s => r.loop evaluate (max 1 ((Cap.ofValue? r.evaluations).elim 1 Cap.rounds)) s none 0 world

end LineRequest

end BoxBfgs.Checked
