import BoxBfgs.Decimal.Columns
import BoxBfgs.Message
import BoxBfgs.Search.Wolfe

namespace BoxBfgs

inductive Obstacle (α : Type) where
  | breakdown (why : Breakdown α)
  | ascent (slope : α)
  | blocked
deriving DecidableEq

inductive Note (α : Type) where
  | reset (why : Obstacle α)
  | failed (how : Outcome)
  | warned (how : Outcome) (step : α)
deriving DecidableEq

structure Record (α : Type) where
  iteration : Nat
  evaluations : Nat
  x : List α
  f : α
  g : List α
  decrease : α
  projectedGradient : α
  step : α
  memorySize : Nat
  outcome : Option Outcome
  notes : List (Note α)

inductive Code where
  | convergedGradient
  | convergedObjective
  | approximate
  | iterationLimit
  | evaluationLimit
  | searchFailed
  | objectiveFailed
  | invalidInput
deriving DecidableEq, Repr

namespace Code

def text : Code → String
  | .convergedGradient => "converged-gradient"
  | .convergedObjective => "converged-objective"
  | .approximate => "approximate"
  | .iterationLimit => "iteration-limit"
  | .evaluationLimit => "evaluation-limit"
  | .searchFailed => "linesearch-failed"
  | .objectiveFailed => "objective-failed"
  | .invalidInput => "invalid-input"

def all : List Code :=
  [.convergedGradient, .convergedObjective, .approximate, .iterationLimit, .evaluationLimit, .searchFailed,
    .objectiveFailed, .invalidInput]

def ofText? (s : String) : Option Code := all.find? fun c => c.text == s

def converged : Code → Bool
  | .convergedGradient | .convergedObjective => true
  | _ => false

def line (c : Code) (message : String) : String := c.text ++ ": " ++ message

end Code

inductive Reason (α : Type) where
  | gradient (norm tolerance : α)
  | objective (relative threshold : α)
  | stuck (why : Obstacle α)
  | rounding
  | iterations (cap : Cap)
  | evaluations (cap : Cap) (searching : Bool)
  | search (failures : Nat) (last : Outcome)
  | failure (why : Failure)
  | invalid (why : Invalid α)

def Reason.code {α : Type} : Reason α → Code
  | .gradient _ _ => .convergedGradient
  | .objective _ _ => .convergedObjective
  | .stuck _ | .rounding => .approximate
  | .iterations _ => .iterationLimit
  | .evaluations _ _ => .evaluationLimit
  | .search _ _ => .searchFailed
  | .failure _ => .objectiveFailed
  | .invalid _ => .invalidInput

structure Status (α : Type) where
  reason : Reason α
  iterations : Nat
  evaluations : Nat

inductive Event (α : Type) where
  | started (n depth constrained : Nat)
  | cauchy (t : α) (passed free : Nat)
  | truncated (alpha : α)
  | searched (outcome : Outcome) (evaluations : Nat) (step : α)
  | noted (note : Note α)
  | skipped
  | iterated (record : Record α)
  /-- The end, with the value at the point that is returned, if it was evaluated. -/
  | finished (status : Status α) (f : Option α)
  | rejected (why : Invalid α)

/-! The texts, for numbers that are doubles. -/

def pointText (x : Tensor Float) (f : Float) (g : Tensor Float) : String :=
  s!"PointValueGradient(x={Decimal.columns x}, f={Decimal.text f}, g={Decimal.columns g})"

def three (a : Float) : String := Decimal.scientific 3 a

def eight (a : Float) : String := Decimal.scientific 8 a

namespace Obstacle

def message : Obstacle Float → String
  | .breakdown why => why.message
  | .ascent slope => s!"search direction is not a descent direction (g'd={three slope})"
  | .blocked => "no feasible step along the search direction"

end Obstacle

namespace Note

def message : Note Float → String
  | .reset why => s!"Resetting limited memory: {why.message}"
  | .failed how => s!"Line search failed ({how.text}); restarting from steepest descent"
  | .warned how step => s!"Line search warning ({how.text}); accepting step {three step}"

end Note

namespace Reason

def message : Reason Float → String
  | .gradient norm tolerance => s!"Projected gradient norm {three norm} <= {three tolerance}."
  | .objective relative threshold => s!"Relative reduction {three relative} <= {three threshold}."
  | .stuck why => s!"No further progress possible from steepest descent: {why.message}."
  | .rounding => "No decrease in f: rounding errors prevent further progress."
  | .iterations cap => s!"Iteration limit {cap.text} reached."
  | .evaluations cap false => s!"Evaluation limit {cap.text} reached."
  | .evaluations cap true => s!"Evaluation limit {cap.text} reached during line search."
  | .search failures last => s!"Line search failed {failures} times in a row (last: {last.text})."
  | .failure why => why.message
  | .invalid why => why.message

end Reason

namespace Status

def text (s : Status Float) : String := s.reason.code.line s.reason.message

end Status

namespace Event

def message : Event Float → String
  | .started n depth constrained =>
      s!"L-BFGS-B start: n={n}, m={depth}, {constrained} of {n} variables bounded"
  | .cauchy t passed free =>
      s!"Cauchy point: t={three t} after {passed} breakpoints, {free} free variables"
  | .truncated alpha => s!"Subspace step truncated to alpha={three alpha} by the bounds"
  | .searched outcome evaluations step =>
      s!"Line search: {outcome.text} after {evaluations} evaluations, step={three step}"
  | .noted note => note.message
  | .skipped => "Skipped correction pair failing the curvature condition"
  | .iterated r =>
      s!"iter {Decimal.padLeft 4 (toString r.iteration)}  f={eight r.f}  |pg|={three r.projectedGradient}  " ++
        s!"step={three r.step}  nfev={r.evaluations}  m={r.memorySize}"
  | .finished s f =>
      s!"L-BFGS-B finished: {s.text} after {s.iterations} iterations, {s.evaluations} evaluations, " ++
        s!"f={eight (f.getD (0.0 / 0.0))}"
  | .rejected why => s!"Rejected problem: {why.message}"

end Event

end BoxBfgs
