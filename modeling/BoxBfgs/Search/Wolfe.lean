import BoxBfgs.Search.Bracket

namespace BoxBfgs

inductive Outcome where
  | converged
  | insufficientDecrease
  | stepAtBound
  | badInterval
  | rounding
  | tooManyEvaluations
  | objectiveFailed
  | budgetExhausted
deriving DecidableEq, Repr

namespace Outcome

def text : Outcome → String
  | .converged => "converged"
  | .insufficientDecrease => "insufficient-decrease"
  | .stepAtBound => "step-at-bound"
  | .badInterval => "bad-interval"
  | .rounding => "rounding-errors"
  | .tooManyEvaluations => "too-many-evaluations"
  | .objectiveFailed => "objective-failed"
  | .budgetExhausted => "budget-exhausted"

end Outcome

/-- A search for a step of sufficient decrease, `f(t) ≤ f(0) + c1 t f'(0)`, and small slope,
`|f'(t)| ≤ c2 |f'(0)|`. The line is tried at `step`, and the values found there move the search on. -/
structure Wolfe (α : Type) where
  c1 : α
  c2 : α
  /-- A closed bracket is not made smaller than this part of its upper end. -/
  tolerance : α
  least : α
  greatest : α
  value : α
  slope : α
  step : α
  /-- Whether the function is still searched with the line of sufficient decrease taken off. -/
  tilted : Bool
  bracket : Bracket α
  low : α
  high : α
  width : α
  widthBefore : α

namespace Wolfe

variable {α : Type} [Scalar α]

def start (value slope step greatest c1 c2 tolerance least : α) : Except (SearchDefect α) (Wolfe α) :=
  if !(0 < c1 && c1 < c2 && c2 < 1) then .error .wolfe
  else if slope ≥ 0 then .error .descent
  else if !(least ≤ step && step ≤ greatest) then .error (.stepRange step least greatest)
  else
    let width := greatest - least
    .ok {
      c1, c2, tolerance, least, greatest, value, slope, step
      tilted := true
      bracket := { best := ⟨0, value, slope⟩, other := ⟨0, value, slope⟩, closed := false }
      low := 0
      high := step + 4.0 * step
      width
      widthBefore := width / 0.5 }

variable (s : Wolfe α)

def slopeTest : α := s.c1 * s.slope

def line (t : α) : α := s.value + t * s.slopeTest

def sufficientDecrease (t value : α) : Bool := value ≤ s.line t

def interval : α × α :=
  (Scalar.least s.bracket.best.step s.bracket.other.step, Scalar.greatest s.bracket.best.step s.bracket.other.step)

def tooNarrow : Bool := s.high - s.low ≤ s.tolerance * s.high

/-- Why the search ends at its step with the given value and slope; the last reason that holds counts. -/
def outcome? (value slope : α) : Option Outcome :=
  let t := s.step
  if value ≤ s.line t && Scalar.abs slope ≤ s.c2 * -s.slope then some .converged
  else if t == s.least && (value > s.line t || slope ≥ s.slopeTest) then some .insufficientDecrease
  else if t == s.greatest && value ≤ s.line t && slope ≤ s.slopeTest then some .stepAtBound
  else if s.bracket.closed && s.tooNarrow then some .badInterval
  else if s.bracket.closed && (t ≤ s.low || t ≥ s.high) then some .rounding
  else none

/-- A sample of the function with the line of sufficient decrease taken off, the constant apart. -/
def tilt (a : Sample α) : Sample α :=
  ⟨a.step, a.value - a.step * s.slopeTest, a.slope - s.slopeTest⟩

def untilt (a : Sample α) : Sample α :=
  ⟨a.step, a.value + a.step * s.slopeTest, a.slope + s.slopeTest⟩

/-- The bracket after a trial, taken of the tilted function as long as the trial is better than the best
one without sufficient decrease. -/
def narrowed (t : Sample α) : Except Arithmetic (Bracket α × α) :=
  let b := s.bracket
  if s.tilted && b.best.value ≥ t.value && t.value > s.line s.step then
    let tilted : Bracket α := { b with best := s.tilt b.best, other := s.tilt b.other }
    (tilted.update (s.tilt t) s.low s.high).map fun (b, step) =>
      ({ b with best := s.untilt b.best, other := s.untilt b.other }, step)
  else b.update t s.low s.high

/-- The search with a new bracket and the step proposed for it. A closed bracket that did not shrink by a third in
two trials is cut in the middle. -/
def moved (b : Bracket α) (step : α) : Wolfe α :=
  let x := b.best.step
  let y := b.other.step
  let clipped (t : α) : α := Scalar.least (Scalar.greatest t s.least) s.greatest
  if b.closed then
    let step := if Scalar.abs (y - x) ≥ 0.66 * s.widthBefore then x + 0.5 * (y - x) else step
    let next := { s with
      bracket := b
      low := Scalar.least x y
      high := Scalar.greatest x y
      width := Scalar.abs (y - x)
      widthBefore := s.width }
    let step := clipped step
    { next with step := if step ≤ next.low || step ≥ next.high || next.tooNarrow then x else step }
  else
    { s with bracket := b, low := step + 1.1 * (step - x), high := step + 4.0 * (step - x), step := clipped step }

/-- Takes in the value and slope at the step: the reason to end there, if there is one, and the search afterwards. -/
def update (value slope : α) : Except Arithmetic (Option Outcome) × Wolfe α :=
  let s := if s.tilted && value ≤ s.line s.step && slope ≥ 0 then { s with tilted := false } else s
  match s.outcome? value slope with
  | some o => (.ok (some o), s)
  | none =>
      match s.narrowed ⟨s.step, value, slope⟩ with
      | .error why => (.error why, s)
      | .ok (b, step) => (.ok none, s.moved b step)

end Wolfe

end BoxBfgs
