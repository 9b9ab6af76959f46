import BoxBfgs.Debug
import BoxBfgs.Evaluator
import BoxBfgs.Options
import BoxBfgs.Solver.World
import BoxBfgs.Subspace

namespace BoxBfgs

abbrev Point (α : Type) (n : Nat) := Evaluated (Vector α n) α n

/-- An iterate with the value before it, if there was one, and the memory of the steps to it. -/
structure Iterate (α : Type) (n : Nat) where
  point : Point α n
  previous : Option α
  memory : Memory α n

/-- Where a run is, with what the next step needs. -/
inductive Phase (α : Type) (n : Nat) where
  | start (memory : Memory α n)
  | evaluating (memory : Memory α n)
  | check (it : Iterate α n)
  | cauchy (it : Iterate α n)
  /-- Without a Cauchy point no coordinate is limited. -/
  | subspace (it : Iterate α n) (point : Option (CauchyPoint α n it.memory.size))
  | search (it : Iterate α n) (direction : Vector α n)
  | ended (memory : Memory α n) (current : Option (Point α n)) (reason : Reason α)
  | escaped (memory : Memory α n) (why : Fault α)

namespace Phase

variable {α : Type} {n : Nat}

def final : Phase α n → Bool
  | .ended _ _ _ | .escaped _ _ => true
  | _ => false

def memory : Phase α n → Memory α n
  | .start m | .evaluating m | .ended m _ _ | .escaped m _ => m
  | .check it | .cauchy it | .subspace it _ | .search it _ => it.memory

end Phase

structure Progress (α : Type) (n : Nat) where
  evaluator : Evaluator (Vector α n) α n
  iterations : Nat := 0
  /-- Searches in a row that accepted nothing. -/
  failures : Nat := 0
  resets : Nat := 0
  step : α
  notes : List (Note α) := []
  outcome : Option Outcome := none
  history : List (Record α) := []

abbrev Callback (α κ : Type) := Record α → World α κ → Except (Fault α) Unit × World α κ

structure Setup (α κ : Type) (n : Nat) where
  id : Nat
  objective : Objective α (World α κ)
  callback : Option (Callback α κ)
  options : Options α
  bounds : Bounds α n
  start : Vector α n

structure State (α κ : Type) (n : Nat) where
  phase : Phase α n
  progress : Progress α n
  world : World α κ

namespace Run

variable {α κ : Type} [Scalar α] {n : Nat} (s : Setup α κ n)

def patience : Nat := 2

def note (e : Note α) (p : Progress α n) (w : World α κ) : Progress α n × World α κ :=
  ({ p with notes := p.notes ++ [e] }, w.emit s.id .summary 30 (.noted e))

/-- Goes on without the memory, or ends the run if there is none. -/
def breakdown (it : Iterate α n) (why : Obstacle α) (p : Progress α n) (w : World α κ) : State α κ n :=
  if it.memory.isEmpty then ⟨.ended it.memory (some it.point) (.stuck why), p, w⟩
  else
    let (p, w) := note s (.reset why) p w
    ⟨.cauchy { it with memory := it.memory.clear }, { p with resets := p.resets + 1 }, w⟩

def unsolved (it : Iterate α n) (why : Unsolved α) (p : Progress α n) (w : World α κ) : State α κ n :=
  match why with
  | .breakdown b => breakdown s it (.breakdown b) p w
  | .nonFinite => ⟨.escaped it.memory .nonFinite, p, w⟩

def starting (m : Memory α n) (p : Progress α n) (w : World α κ) : State α κ n :=
  ⟨.evaluating m.clear, p, w.emit s.id .summary 20 (.started n s.options.depth s.bounds.constrained)⟩

def evaluating (m : Memory α n) (p : Progress α n) (w : World α κ) : State α κ n :=
  match p.evaluator.call s.objective Tensor.ofVector s.start w with
  | (.ok point, e, w) => ⟨.check { point, previous := none, memory := m }, { p with evaluator := e }, w⟩
  | (.error (.failure why), e, w) => ⟨.ended m none (.failure why), { p with evaluator := e }, w⟩
  | (.error why, e, w) => ⟨.escaped m why, { p with evaluator := e }, w⟩

def cauchy (it : Iterate α n) (p : Progress α n) (w : World α κ) : State α κ n :=
  if s.bounds.unconstrained then ⟨.subspace it none, p, w⟩
  else
    let it := { it with memory := it.memory.keepFactor }
    match Cauchy.point s.bounds.toBox it.memory it.point.x it.point.g with
    | .error why => unsolved s it why p w
    | .ok c => ⟨.subspace it (some c), p, w.emit s.id .verbose 10 (.cauchy c.t c.passed (c.free.countP id))⟩

def subspace (it : Iterate α n) (c : Option (CauchyPoint α n it.memory.size)) (p : Progress α n) (w : World α κ) :
    State α κ n :=
  match c with
  | none => ⟨.search it (-it.memory.inverseHessianProduct it.point.g), p, w⟩
  | some c =>
      match Subspace.minimize s.bounds.toBox it.memory it.point.x it.point.g c with
      | .error why => unsolved s it why p w
      | .ok step =>
          let w := if step.truncated then w.emit s.id .verbose 10 (.truncated step.alpha) else w
          ⟨.search it step.direction, p, w⟩

/-- The step to try first: one, but not more than the box allows, and for the first iterate not more than a unit
move along the gradient unless the box is bounded. -/
def initialStep (iterations : Nat) (g : Vector α n) (longest : α) : α :=
  let norm := Vec.maxAbs g
  let step := if iterations == 0 && !s.bounds.boxed && norm > 0 then Scalar.least 1 (1 / norm) else 1
  Scalar.least step longest

def trial (x d : Vector α n) (t : α) : Vector α n :=
  let y := x + Vec.scale t d
  if s.bounds.unconstrained then y else s.bounds.project y

def longestStep (x d : Vector α n) : α :=
  if s.bounds.unconstrained then Box.bigStep else s.bounds.maxStep x d Box.bigStep

def rejected (it : Iterate α n) (outcome : Outcome) (p : Progress α n) (w : World α κ) : State α κ n :=
  let last := some it.point
  if outcome = .budgetExhausted then ⟨.ended it.memory last (.evaluations s.options.evaluations true), p, w⟩
  else
    let p := { p with failures := p.failures + 1 }
    if p.failures ≥ patience then ⟨.ended it.memory last (.search p.failures outcome), p, w⟩
    else
      let (p, w) := note s (.failed outcome) p w
      ⟨.cauchy { it with memory := it.memory.clear }, { p with resets := p.resets + 1 }, w⟩

def accepted (it : Iterate α n) (outcome : Outcome) (step : α) (new : Point α n) (p : Progress α n)
    (w : World α κ) : State α κ n :=
  let (p, w) := if outcome = .converged then (p, w) else note s (.warned outcome step) p w
  let p := { p with failures := 0 }
  let next (m : Memory α n) (w : World α κ) : State α κ n :=
    ⟨.check { point := new, previous := some it.point.f, memory := m },
      { p with step, iterations := p.iterations + 1 }, w⟩
  match it.memory.push ⟨new.x - it.point.x, new.g - it.point.g⟩ with
  | .stored m => next m w
  | .refused => next it.memory (w.emit s.id .verbose 10 .skipped)
  | .noRoom => ⟨.escaped it.memory .outOfRange, p, w⟩

def searching (it : Iterate α n) (d : Vector α n) (p : Progress α n) (w : World α κ) : State α κ n :=
  let slope := Vec.dot it.point.g d
  let longest := longestStep s it.point.x d
  if !(slope < 0 && Scalar.isFinite slope) then breakdown s it (.ascent slope) p w
  else if longest ≤ 0 then breakdown s it .blocked p w
  else
    let evaluate (t : α) (ew : Evaluator (Vector α n) α n × World α κ) :=
      ew.1.attempt s.objective Tensor.ofVector d (trial s it.point.x d t) ew.2
    let step := initialStep s p.iterations it.point.g longest
    match Line.search evaluate s.options.line it.point.f slope step longest (p.evaluator, w) with
    | (.error why, e, w) => ⟨.escaped it.memory why, { p with evaluator := e }, w⟩
    | (.ok found, e, w) =>
        let p := { p with evaluator := e, outcome := some found.outcome }
        let w := w.emit s.id .verbose 10 (.searched found.outcome found.evaluations found.step)
        match found.fault, found.point with
        | some (.failure why), _ => ⟨.ended it.memory (some it.point) (.failure why), p, w⟩
        | _, none => rejected s it found.outcome p w
        | _, some new => accepted s it found.outcome found.step new p w

def inspect (it : Iterate α n) : Except (Fault α) Unit := do
  s.bounds.checkFeasible (.ofVector it.point.x) (.single 0)
  Debug.checkAdmissible it.memory
  Debug.checkFinite "f" [it.point.f]
  Debug.checkFinite "g" it.point.g.toList

def report (it : Iterate α n) (previous norm : α) (p : Progress α n) : Record α :=
  { iteration := p.iterations, evaluations := p.evaluator.count, x := it.point.x.toList, f := it.point.f,
    g := it.point.g.toList, decrease := previous - it.point.f, projectedGradient := norm, step := p.step,
    memorySize := it.memory.size, outcome := p.outcome, notes := p.notes }

def record (it : Iterate α n) (previous norm : α) (p : Progress α n) (w : World α κ) :
    Except (Fault α) Unit × Progress α n × World α κ :=
  match if w.session.debug then inspect s it else .ok () with
  | .error why => (.error why, p, w)
  | .ok () =>
      let r := report it previous norm p
      let w := w.emit s.id .iterations 20 (.iterated r)
      let p := { p with notes := [], history := if s.options.keepHistory.holds then p.history ++ [r] else p.history }
      match s.callback with
      | none => (.ok (), p, w)
      | some f => let (r, w) := f r w; (r, p, w)

/-- The decrease relative to the values, which count as one at least. -/
def relativeDecrease (previous f : α) : α :=
  (previous - f) / Scalar.greatest (Scalar.greatest (Scalar.abs previous) (Scalar.abs f)) 1

def reason? (it : Iterate α n) (norm : α) (p : Progress α n) : Option (Reason α) :=
  let o := s.options
  let decrease := it.previous.map fun f => relativeDecrease f it.point.f
  let threshold := o.fTolerance * Scalar.epsilon
  let settled : Option (Reason α) := decrease.bind fun a =>
    if o.fTolerance > 0 && a ≤ threshold then some (.objective a threshold)
    else if a ≤ 0 then some .rounding
    else none
  if norm ≤ o.gTolerance then some (.gradient norm o.gTolerance)
  else
    match settled with
    | some r => some r
    | none =>
        if o.iterations.reached p.iterations then some (.iterations o.iterations)
        else if p.evaluator.exhausted then some (.evaluations o.evaluations false)
        else none

def checking (it : Iterate α n) (p : Progress α n) (w : World α κ) : State α κ n :=
  let norm := s.bounds.projectedGradientNorm it.point.x it.point.g
  let reported : Except (Fault α) Unit × Progress α n × World α κ := match it.previous with
    | none => (.ok (), p, w)
    | some f => record s it f norm p w
  match reported with
  | (.error why, p, w) => ⟨.escaped it.memory why, p, w⟩
  | (.ok (), p, w) =>
      match reason? s it norm p with
      | some r => ⟨.ended it.memory (some it.point) r, p, w⟩
      | none => ⟨.cauchy it, p, w⟩

def step (st : State α κ n) : State α κ n :=
  match st.phase with
  | .start m => starting s m st.progress st.world
  | .evaluating m => evaluating s m st.progress st.world
  | .check it => checking s it st.progress st.world
  | .cauchy it => cauchy s it st.progress st.world
  | .subspace it c => subspace s it c st.progress st.world
  | .search it d => searching s it d st.progress st.world
  | .ended _ _ _ | .escaped _ _ => st

def loop : Nat → State α κ n → State α κ n
  | 0, st => st
  | fuel + 1, st => if st.phase.final then st else loop fuel (step s st)

/-- Between two iterates lie at most three Cauchy points, three directions and two searches. -/
def fuel (iterations : Nat) : Nat := 10 * iterations + 3

def run (m : Memory α n) (w : World α κ) : State α κ n :=
  loop s (fuel s.options.iterations.rounds)
    { phase := .start m
      progress := { evaluator := { budget := s.options.evaluations }, step := 0 }
      world := w }

end Run

end BoxBfgs
