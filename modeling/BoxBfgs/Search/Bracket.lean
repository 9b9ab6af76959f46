import BoxBfgs.Fault

namespace BoxBfgs

structure Sample (α : Type) where
  step : α
  value : α
  slope : α
deriving DecidableEq

/-- The best step so far and the other end of the interval that is searched. Once the interval is closed a
minimum lies in it. -/
structure Bracket (α : Type) where
  best : Sample α
  other : Sample α
  closed : Bool
deriving DecidableEq

namespace Bracket

variable {α : Type} [Scalar α]

def quotient (a b : α) : Except Arithmetic α := if b == 0 then .error .divisionByZero else .ok (a / b)

/-- `√(theta² - a b)`, scaled against overflow; zero where the radicand is negative. -/
def root (theta a b : α) : α :=
  let s := Scalar.greatest (Scalar.greatest (Scalar.abs theta) (Scalar.abs a)) (Scalar.abs b)
  if s == 0 then 0
  else s * Scalar.sqrt (Scalar.greatest 0 ((theta / s) * (theta / s) - (a / s) * (b / s)))

/-- The slopes of two samples less three times the mean slope between them. -/
def slopes (a b : Sample α) : Except Arithmetic α :=
  (quotient (3.0 * (a.value - b.value)) (b.step - a.step)).map fun m => m + a.slope + b.slope

/-- `base + (p / q) (target - base)`, and `base` itself where `q` is zero. -/
def along (base target p q : α) : α := if q != 0 then base + p / q * (target - base) else base

/-- The zero of the slope as a straight line through two samples, seen from the second one. -/
def secant (a b : Sample α) : Except Arithmetic α :=
  (quotient b.slope (b.slope - a.slope)).map fun r => b.step + r * (a.step - b.step)

/-- Whether the slopes of two samples have opposite signs. -/
def opposed (a b : Sample α) : Bool :=
  let s : α := if a.slope == 0 then 0 else if Scalar.negative a.slope then -b.slope else b.slope
  s < 0

/-- The new value is higher: the cubic step if it is the nearer one, else the middle between it and the
quadratic step. -/
def stepHigher (b : Bracket α) (t : Sample α) : Except Arithmetic α := do
  let x := b.best
  let theta ← slopes x t
  let gamma := root theta x.slope t.slope
  let gamma := if t.step < x.step then -gamma else gamma
  let cubic := along x.step t.step ((gamma - x.slope) + theta) (((gamma - x.slope) + gamma) + t.slope)
  let mean ← quotient (x.value - t.value) (t.step - x.step)
  let ratio ← quotient x.slope (mean + x.slope)
  let quadratic := x.step + ratio / 2.0 * (t.step - x.step)
  return if Scalar.abs (cubic - x.step) < Scalar.abs (quadratic - x.step) then cubic
    else cubic + (quadratic - cubic) / 2.0

/-- The slopes have opposite signs: the farther one of the cubic and the secant step. -/
def stepOpposed (b : Bracket α) (t : Sample α) : Except Arithmetic α := do
  let x := b.best
  let theta ← slopes x t
  let gamma := root theta x.slope t.slope
  let gamma := if t.step > x.step then -gamma else gamma
  let cubic := along t.step x.step ((gamma - t.slope) + theta) (((gamma - t.slope) + gamma) + x.slope)
  let straight ← secant x t
  return if Scalar.abs (cubic - t.step) > Scalar.abs (straight - t.step) then cubic else straight

/-- The slope has the same sign and is flatter. The cubic step counts only if the cubic tends to infinity in
the direction of the step or its minimum lies beyond it. -/
def stepFlatter (b : Bracket α) (t : Sample α) (low high : α) : Except Arithmetic α := do
  let x := b.best
  let theta ← slopes x t
  let gamma := root theta x.slope t.slope
  let gamma := if t.step > x.step then -gamma else gamma
  let p := (gamma - t.slope) + theta
  let q := (gamma + (x.slope - t.slope)) + gamma
  let r : α := if q != 0 then p / q else 0
  let cubic := if r < 0 && gamma != 0 then t.step + r * (x.step - t.step)
    else if t.step > x.step then high else low
  let straight ← secant x t
  let far := Scalar.abs (cubic - t.step)
  let near := Scalar.abs (straight - t.step)
  if b.closed then
    let s := if far < near then cubic else straight
    let limit := t.step + 0.66 * (b.other.step - t.step)
    return if t.step > x.step then Scalar.least limit s else Scalar.greatest limit s
  else
    let s := if far > near then cubic else straight
    return Scalar.greatest low (Scalar.least high s)

/-- The slope has the same sign and is not flatter. -/
def stepSteeper (b : Bracket α) (t : Sample α) (low high : α) : Except Arithmetic α := do
  if b.closed then
    let y := b.other
    let theta ← (quotient (3.0 * (t.value - y.value)) (y.step - t.step)).map fun m => m + y.slope + t.slope
    let gamma := root theta y.slope t.slope
    let gamma := if t.step > y.step then -gamma else gamma
    return along t.step y.step ((gamma - t.slope) + theta) (((gamma - t.slope) + gamma) + y.slope)
  else return if t.step > b.best.step then high else low

/-- The bracket after a trial, and the next step to try, within `low` and `high` as long as the bracket is
open. -/
def update (b : Bracket α) (t : Sample α) (low high : α) : Except Arithmetic (Bracket α × α) :=
  if t.value > b.best.value then
    (b.stepHigher t).map fun s => ({ best := b.best, other := t, closed := true }, s)
  else if opposed b.best t then
    (b.stepOpposed t).map fun s => ({ best := t, other := b.best, closed := true }, s)
  else if Scalar.abs t.slope < Scalar.abs b.best.slope then
    (b.stepFlatter t low high).map fun s => ({ b with best := t }, s)
  else (b.stepSteeper t low high).map fun s => ({ b with best := t }, s)

end Bracket

end BoxBfgs
