import BoxBfgs.Proofs.Run.Trace
import BoxBfgs.Proofs.Search.Lift

namespace BoxBfgs

/-- A way to move values, with one to move entries. -/
structure Drift (α : Type) [Scalar α] extends Lift α where
  entries : List α → List α
  entries_nil : entries [] = []

namespace Drift

variable {α : Type} [Scalar α]

def still (α : Type) [Scalar α] : Drift α where
  toLift := .still α
  entries := id
  entries_nil := rfl

variable (δ : Drift α)

def record (r : Record α) : Record α := { r with x := δ.entries r.x, f := δ.value r.f }

@[simp] theorem map_record_still (l : List (Record α)) : l.map (still α).record = l := List.map_id' l

end Drift

/-- A way to move points and values that no difference of two of them can tell. -/
structure Motion (α : Type) [Scalar α] (n : Nat) extends Drift α where
  point : Vector α n → Vector α n
  toList_point (x : Vector α n) : (point x).toList = entries x.toList
  point_sub_point (x y : Vector α n) : point x - point y = x - y

namespace Motion

variable {α : Type} [Scalar α] {n : Nat}

/-- Nothing moves. -/
def still (α : Type) [Scalar α] (n : Nat) : Motion α n where
  toDrift := .still α
  point := id
  toList_point _ := rfl
  point_sub_point _ _ := rfl

variable (τ : Motion α n)

def evaluated (p : Point α n) : Point α n := { x := τ.point p.x, f := τ.value p.f, g := p.g }

def evaluator (e : Evaluator (Vector α n) α n) : Evaluator (Vector α n) α n := { e with best := e.best.map τ.evaluated }

def iterate (it : Iterate α n) : Iterate α n :=
  { point := τ.evaluated it.point, previous := it.previous.map τ.value, memory := it.memory }

def cauchy {k : Nat} (c : CauchyPoint α n k) : CauchyPoint α n k := { c with x := τ.point c.x }

def subspace (c : SubspaceStep α n) : SubspaceStep α n := { c with x := τ.point c.x }

def phase : Phase α n → Phase α n
  | .start m => .start m
  | .evaluating m => .evaluating m
  | .check it => .check (τ.iterate it)
  | .cauchy it => .cauchy (τ.iterate it)
  | .subspace it c => .subspace (τ.iterate it) (c.map τ.cauchy)
  | .search it d => .search (τ.iterate it) d
  | .ended m current reason => .ended m (current.map τ.evaluated) reason
  | .escaped m why => .escaped m why

@[simp] theorem final_phase (ph : Phase α n) : (τ.phase ph).final = ph.final := by
  cases ph <;> rfl

@[simp] theorem evaluated_still (p : Point α n) : (still α n).evaluated p = p := rfl

@[simp] theorem map_evaluated_still (p : Option (Point α n)) : p.map (still α n).evaluated = p := by
  cases p <;> rfl

@[simp] theorem iterate_still (it : Iterate α n) : (still α n).iterate it = it := by
  obtain ⟨point, previous, memory⟩ := it
  cases previous <;> rfl

@[simp] theorem evaluator_still (e : Evaluator (Vector α n) α n) : (still α n).evaluator e = e := by
  simp [evaluator]

@[simp] theorem phase_still (ph : Phase α n) : (still α n).phase ph = ph := by
  cases ph with
  | start | evaluating | escaped => rfl
  | check | cauchy | search => simp [phase]
  | subspace it c =>
      obtain ⟨point, previous, memory⟩ := it
      cases previous <;> cases c <;> rfl
  | ended m c r => exact congrArg (Phase.ended m · r) (map_evaluated_still c)

end Motion

/-- Worlds with related clients, with the checks switched on or off in each. -/
structure Beside {α κ : Type} (C : κ → κ → Prop) (d d' : Bool) (w w' : World α κ) : Prop where
  client : C w.client w'.client
  debug : w.session.debug = d
  debug' : w'.session.debug = d'

namespace World

variable {α κ : Type}

@[simp] theorem debug_emit (w : World α κ) (id : Nat) (needed : Verbosity) (level : Level) (e : Event α) :
    (w.emit id needed level e).session.debug = w.session.debug := by
  rw [emit]
  split <;> rfl

@[simp] theorem client_enter (w : World α κ) (id : Nat) (verbosity : Verbosity) :
    (w.enter id verbosity).1.client = w.client := by
  simp only [enter]
  split <;> rfl

@[simp] theorem debug_enter (w : World α κ) (id : Nat) (verbosity : Verbosity) :
    (w.enter id verbosity).1.session.debug = w.session.debug := by
  simp only [enter]
  split <;> rfl

end World

namespace Beside

variable {α κ : Type} {C : κ → κ → Prop} {d d' : Bool} {w w' : World α κ}

/-- Whatever the two write into their logs. -/
theorem emit (h : Beside C d d' w w') {id id' : Nat} {needed needed' : Verbosity} {level level' : Level}
    {e e' : Event α} : Beside C d d' (w.emit id needed level e) (w'.emit id' needed' level' e') where
  client := by
    rw [World.client_emit, World.client_emit]
    exact h.client
  debug := (World.debug_emit _ _ _ _ _).trans h.debug
  debug' := (World.debug_emit _ _ _ _ _).trans h.debug'

theorem enter (h : Beside C d d' w w') {id id' : Nat} {verbosity verbosity' : Verbosity} :
    Beside C d d' (w.enter id verbosity).1 (w'.enter id' verbosity').1 where
  client := by
    rw [World.client_enter, World.client_enter]
    exact h.client
  debug := (World.debug_enter _ _ _).trans h.debug
  debug' := (World.debug_enter _ _ _).trans h.debug'

end Beside

/-- What a run needs of a moved problem to move along: the same answers, moved, and a box that moves with it. -/
structure Moves {α κ : Type} [Scalar α] {n : Nat} (τ : Motion α n) (C : κ → κ → Prop) (d d' : Bool)
    (s s' : Setup α κ n) : Prop where
  call : ∀ (x : Vector α n) (w w' : World α κ), Beside C d d' w w' →
    (s'.objective.call (.ofVector (τ.point x)) w').1 =
        (s.objective.call (.ofVector x) w).1.map (fun a => (τ.value a.1, a.2)) ∧
      Beside C d d' (s.objective.call (.ofVector x) w).2 (s'.objective.call (.ofVector (τ.point x)) w').2
  callback : Option.Rel (fun f f' => ∀ (r : Record α) (w w' : World α κ), Beside C d d' w w' →
    (f' (τ.record r) w').1 = (f r w).1 ∧ Beside C d d' (f r w).2 (f' (τ.record r) w').2) s.callback s'.callback
  start : s'.start = τ.point s.start
  line : s'.options.line = s.options.line
  evaluations : s'.options.evaluations = s.options.evaluations
  unconstrained : s'.bounds.unconstrained = s.bounds.unconstrained
  boxed : s'.bounds.boxed = s.bounds.boxed
  norm : ∀ x g, s'.bounds.projectedGradientNorm (τ.point x) g = s.bounds.projectedGradientNorm x g
  trial : ∀ x d t, Run.trial s' (τ.point x) d t = τ.point (Run.trial s x d t)
  longest : ∀ x d, Run.longestStep s' (τ.point x) d = Run.longestStep s x d
  cauchy : ∀ (m : Memory α n) x g, Cauchy.point s'.bounds.toBox m (τ.point x) g =
    (Cauchy.point s.bounds.toBox m x g).map τ.cauchy
  subspace : ∀ (m : Memory α n) x g (c : CauchyPoint α n m.size),
    Subspace.minimize s'.bounds.toBox m (τ.point x) g (τ.cauchy c) =
      (Subspace.minimize s.bounds.toBox m x g c).map τ.subspace

namespace Evaluator

variable {α κ : Type} [Scalar α] {n : Nat} (τ : Motion α n) {C : κ → κ → Prop} {d d' : Bool} {s s' : Setup α κ n}
  (e : Evaluator (Vector α n) α n) (x : Vector α n) {w w' : World α κ}

theorem better_motion (best : Option (Point α n)) (p : Point α n) :
    better (best.map τ.evaluated) (τ.evaluated p) = (better best p).map τ.evaluated := by
  cases best with
  | none => rfl
  | some b =>
      have hlt : (τ.evaluated p).f < (τ.evaluated b).f ↔ p.f < b.f := τ.value_lt _ _
      simp only [better, Option.map_some, hlt]
      split <;> rfl

theorem check_motion (k : Nat) (f : α) (g : Tensor α) :
    (τ.evaluator e).check k (τ.point x) (τ.value f) g = (e.check k x f g).map τ.evaluated := by
  have hexpected : (τ.evaluator e).expected = e.expected := rfl
  simp only [check, hexpected, Lift.isFinite_value]
  split
  · rfl
  · split <;> rfl

variable {τ}

theorem call_motion (h : Moves τ C d d' s s') (hw : Beside C d d' w w') :
    ((τ.evaluator e).call s'.objective Tensor.ofVector (τ.point x) w').1 =
        (e.call s.objective Tensor.ofVector x w).1.map τ.evaluated ∧
      ((τ.evaluator e).call s'.objective Tensor.ofVector (τ.point x) w').2.1 =
        τ.evaluator (e.call s.objective Tensor.ofVector x w).2.1 ∧
      Beside C d d' (e.call s.objective Tensor.ofVector x w).2.2
        ((τ.evaluator e).call s'.objective Tensor.ofVector (τ.point x) w').2.2 := by
  have hexhausted : (τ.evaluator e).exhausted = e.exhausted := rfl
  have hcount : (τ.evaluator e).count = e.count := rfl
  obtain ⟨hreply, hworld⟩ := h.call x w w' hw
  rw [call, call, hexhausted]
  split
  · exact ⟨rfl, rfl, hw⟩
  · cases hr : s.objective.call (.ofVector x) w with
    | mk r v =>
        cases hr' : s'.objective.call (.ofVector (τ.point x)) w' with
        | mk r' v' =>
            rw [hr, hr'] at hreply hworld
            dsimp only at hreply hworld
            subst hreply
            cases r with
            | answer a =>
                simp only [Reply.map, check_motion, hcount]
                cases e.check (e.count + 1) x a.1 a.2 with
                | error why => exact ⟨rfl, rfl, hworld⟩
                | ok p =>
                    refine ⟨rfl, ?_, hworld⟩
                    simp only [Except.map, Motion.evaluator, better_motion]
            | abort | arithmetic | fault => exact ⟨rfl, rfl, hworld⟩

theorem attempt_motion (h : Moves τ C d d' s s') (hw : Beside C d d' w w') (direction : Vector α n) :
    ((τ.evaluator e).attempt s'.objective Tensor.ofVector direction (τ.point x) w').1 =
        τ.attempt τ.evaluated (e.attempt s.objective Tensor.ofVector direction x w).1 ∧
      ((τ.evaluator e).attempt s'.objective Tensor.ofVector direction (τ.point x) w').2.1 =
        τ.evaluator (e.attempt s.objective Tensor.ofVector direction x w).2.1 ∧
      Beside C d d' (e.attempt s.objective Tensor.ofVector direction x w).2.2
        ((τ.evaluator e).attempt s'.objective Tensor.ofVector direction (τ.point x) w').2.2 := by
  obtain ⟨hpoint, hevaluator, hworld⟩ := call_motion e x h hw
  rw [attempt, attempt]
  generalize e.call s.objective Tensor.ofVector x w = r at *
  generalize (τ.evaluator e).call s'.objective Tensor.ofVector (τ.point x) w' = r' at *
  obtain ⟨r, e1, v⟩ := r
  obtain ⟨r', e1', v'⟩ := r'
  dsimp only at hpoint hevaluator hworld
  subst hpoint hevaluator
  cases r with
  | error why => cases why <;> exact ⟨rfl, rfl, hworld⟩
  | ok p => exact ⟨rfl, rfl, hworld⟩

end Evaluator

namespace Run

/-- Runs that have counted the same. The histories are compared where `kept` says so. -/
structure Even {α : Type} [Scalar α] {n : Nat} (τ : Motion α n) (kept : Prop) (p p' : Progress α n) : Prop where
  evaluator : p'.evaluator = τ.evaluator p.evaluator
  iterations : p'.iterations = p.iterations
  failures : p'.failures = p.failures
  resets : p'.resets = p.resets
  step : p'.step = p.step
  notes : p'.notes = p.notes
  outcome : p'.outcome = p.outcome
  history : kept → p'.history = p.history.map τ.record

variable {α κ : Type} [Scalar α] {n : Nat}

def alikeKept (s s' : Setup α κ n) : Prop := s'.options.keepHistory.holds = s.options.keepHistory.holds

/-- Runs that are at the same place, of which one has moved. -/
structure Level (τ : Motion α n) (C : κ → κ → Prop) (d d' : Bool) (kept : Prop) (st st' : State α κ n) : Prop where
  phase : st'.phase = τ.phase st.phase
  progress : Even τ kept st.progress st'.progress
  world : Beside C d d' st.world st'.world

variable {τ : Motion α n} {C : κ → κ → Prop} {d d' : Bool} {s s' : Setup α κ n} {kept : Prop} {it : Iterate α n}
  {p p' : Progress α n} {w w' : World α κ}

section

variable (hp : Even τ kept p p') (hw : Beside C d d' w w')

include hp hw

theorem breakdown_level (why : Obstacle α) :
    Level τ C d d' kept (breakdown s it why p w) (breakdown s' (τ.iterate it) why p' w') := by
  have hm : (τ.iterate it).memory = it.memory := rfl
  simp only [breakdown, hm]
  split
  · exact ⟨rfl, hp, hw⟩
  · exact ⟨rfl, { hp with notes := congrArg (· ++ _) hp.notes, resets := congrArg (· + 1) hp.resets }, hw.emit⟩

theorem unsolved_level (why : Unsolved α) :
    Level τ C d d' kept (unsolved s it why p w) (unsolved s' (τ.iterate it) why p' w') := by
  cases why with
  | breakdown why => exact breakdown_level hp hw _
  | nonFinite => exact ⟨rfl, hp, hw⟩

end

theorem rejected_level (h : Moves τ C d d' s s') (outcome : Outcome) (hp : Even τ kept p p')
    (hw : Beside C d d' w w') :
    Level τ C d d' kept (rejected s it outcome p w) (rejected s' (τ.iterate it) outcome p' w') := by
  simp only [rejected, h.evaluations, hp.failures]
  split
  · exact ⟨rfl, hp, hw⟩
  · have hfailures : Even τ kept { p with failures := p.failures + 1 } { p' with failures := p.failures + 1 } :=
      { hp with failures := rfl }
    split
    · exact ⟨rfl, hfailures, hw⟩
    · exact ⟨rfl, { hfailures with notes := congrArg (· ++ _) hp.notes, resets := congrArg (· + 1) hp.resets }, hw.emit⟩

theorem accepted_level (outcome : Outcome) (t : α) (new : Point α n) (hp : Even τ kept p p')
    (hw : Beside C d d' w w') :
    Level τ C d d' kept (accepted s it outcome t new p w)
      (accepted s' (τ.iterate it) outcome t (τ.evaluated new) p' w') := by
  have hnoted : Even τ kept
      (if outcome = .converged then (p, w) else note s (.warned outcome t) p w).1
      (if outcome = .converged then (p', w') else note s' (.warned outcome t) p' w').1 ∧
    Beside C d d' (if outcome = .converged then (p, w) else note s (.warned outcome t) p w).2
      (if outcome = .converged then (p', w') else note s' (.warned outcome t) p' w').2 := by
    split
    · exact ⟨hp, hw⟩
    · exact ⟨{ hp with notes := congrArg (· ++ _) hp.notes }, hw.emit⟩
  generalize hr : (if outcome = .converged then (p, w) else note s (.warned outcome t) p w) = r at hnoted
  generalize hr' : (if outcome = .converged then (p', w') else note s' (.warned outcome t) p' w') = r' at hnoted
  obtain ⟨hp, hw⟩ := hnoted
  have hx : (τ.evaluated new).x - (τ.iterate it).point.x = new.x - it.point.x := τ.point_sub_point _ _
  have hg : (τ.evaluated new).g - (τ.iterate it).point.g = new.g - it.point.g := rfl
  have hm : (τ.iterate it).memory = it.memory := rfl
  simp only [accepted, hr, hr', hx, hg, hm]
  split
  · exact ⟨rfl, { hp with step := rfl, iterations := congrArg (· + 1) hp.iterations, failures := rfl }, hw⟩
  · exact ⟨rfl, { hp with step := rfl, iterations := congrArg (· + 1) hp.iterations, failures := rfl }, hw.emit⟩
  · exact ⟨rfl, { hp with failures := rfl }, hw⟩

theorem sought_motion (it : Iterate α n) (h : Moves τ C d d' s s') (hp : Even τ kept p p') (hw : Beside C d d' w w')
    (direction : Vector α n) :
    (sought s' (τ.iterate it) direction p' w').1 = (sought s it direction p w).1.map (Found.map τ.evaluated) ∧
      (sought s' (τ.iterate it) direction p' w').2.1 = τ.evaluator (sought s it direction p w).2.1 ∧
      Beside C d d' (sought s it direction p w).2.2 (sought s' (τ.iterate it) direction p' w').2.2 := by
  have hlongest : longestStep s' (τ.iterate it).point.x direction = longestStep s it.point.x direction :=
    h.longest _ _
  have hinitial : initialStep s' p'.iterations (τ.iterate it).point.g (longestStep s it.point.x direction) =
      initialStep s p.iterations it.point.g (longestStep s it.point.x direction) := by
    simp only [initialStep, h.boxed, hp.iterations]
    rfl
  rw [sought, sought, hlongest, hinitial, h.line]
  refine Line.search_lift τ.toLift τ.evaluated
    (R := fun ew ew' : Evaluator (Vector α n) α n × World α κ => ew'.1 = τ.evaluator ew.1 ∧ Beside C d d' ew.2 ew'.2)
    (fun t ew ew' hew => ?_) s.options.line it.point.f _ _ _ ⟨hp.evaluator, hw⟩
  have htrial : trial s' (τ.iterate it).point.x direction t = τ.point (trial s it.point.x direction t) := h.trial _ _ _
  simp only [tried, htrial, hew.1]
  exact Evaluator.attempt_motion _ _ h hew.2 direction

theorem followed_level (h : Moves τ C d d' s s') (hp : Even τ kept p p')
    {r r' : Except (Fault α) (Found α (Point α n)) × Evaluator (Vector α n) α n × World α κ}
    (hfound : r'.1 = r.1.map (Found.map τ.evaluated)) (he : r'.2.1 = τ.evaluator r.2.1)
    (hw : Beside C d d' r.2.2 r'.2.2) :
    Level τ C d d' kept (followed s it p r) (followed s' (τ.iterate it) p' r') := by
  obtain ⟨r, e, v⟩ := r
  obtain ⟨r', e', v'⟩ := r'
  dsimp only at hfound he hw
  subst hfound he
  cases r with
  | error why => exact ⟨rfl, { hp with evaluator := rfl }, hw⟩
  | ok found =>
      obtain ⟨t, point, evaluations, outcome, fault⟩ := found
      have hfound : Even τ kept { p with evaluator := e, outcome := some outcome }
          { p' with evaluator := τ.evaluator e, outcome := some outcome } :=
        { hp with evaluator := rfl, outcome := rfl }
      have hothers : Level τ C d d' kept
          (match point with
            | none => rejected s it outcome { p with evaluator := e, outcome := some outcome }
                (v.emit s.id .verbose 10 (.searched outcome evaluations t))
            | some new => accepted s it outcome t new { p with evaluator := e, outcome := some outcome }
                (v.emit s.id .verbose 10 (.searched outcome evaluations t)))
          (match point.map τ.evaluated with
            | none => rejected s' (τ.iterate it) outcome { p' with evaluator := τ.evaluator e, outcome := some outcome }
                (v'.emit s'.id .verbose 10 (.searched outcome evaluations t))
            | some new => accepted s' (τ.iterate it) outcome t new
                { p' with evaluator := τ.evaluator e, outcome := some outcome }
                (v'.emit s'.id .verbose 10 (.searched outcome evaluations t))) := by
        cases point with
        | none => exact rejected_level h _ hfound hw.emit
        | some new => exact accepted_level _ _ _ hfound hw.emit
      cases fault with
      | none => cases point <;> exact hothers
      | some why =>
          cases why with
          | failure why => exact ⟨rfl, hfound, hw.emit⟩
          | _ => cases point <;> exact hothers

theorem searching_level (h : Moves τ C d d' s s') (hp : Even τ kept p p') (hw : Beside C d d' w w')
    (direction : Vector α n) :
    Level τ C d d' kept (searching s it direction p w) (searching s' (τ.iterate it) direction p' w') := by
  have hlongest : longestStep s' (τ.iterate it).point.x direction = longestStep s it.point.x direction :=
    h.longest _ _
  have hg : (τ.iterate it).point.g = it.point.g := rfl
  rw [searching_eq, searching_eq, hlongest, hg]
  split
  · exact breakdown_level hp hw _
  · split
    · exact breakdown_level hp hw _
    · obtain ⟨hfound, he, hworld⟩ := sought_motion it h hp hw direction
      exact followed_level h hp hfound he hworld

/-- What follows from a Cauchy point. -/
def passed (s : Setup α κ n) (it : Iterate α n) (p : Progress α n) (w : World α κ) :
    Except (Unsolved α) (CauchyPoint α n it.memory.size) → State α κ n
  | .error why => unsolved s it why p w
  | .ok c => ⟨.subspace it (some c), p, w.emit s.id .verbose 10 (.cauchy c.t c.passed (c.free.countP id))⟩

/-- What follows from a step in the free coordinates. -/
def turned (s : Setup α κ n) (it : Iterate α n) (p : Progress α n) (w : World α κ) :
    Except (Unsolved α) (SubspaceStep α n) → State α κ n
  | .error why => unsolved s it why p w
  | .ok step =>
      ⟨.search it step.direction, p, if step.truncated then w.emit s.id .verbose 10 (.truncated step.alpha) else w⟩

theorem cauchy_eq : cauchy s it p w =
    if s.bounds.unconstrained then ⟨.subspace it none, p, w⟩
    else passed s { it with memory := it.memory.keepFactor } p w
      (Cauchy.point s.bounds.toBox it.memory.keepFactor it.point.x it.point.g) := rfl

theorem subspace_eq (c : CauchyPoint α n it.memory.size) : subspace s it (some c) p w =
    turned s it p w (Subspace.minimize s.bounds.toBox it.memory it.point.x it.point.g c) := rfl

theorem cauchy_level (h : Moves τ C d d' s s') (hp : Even τ kept p p') (hw : Beside C d d' w w') :
    Level τ C d d' kept (cauchy s it p w) (cauchy s' (τ.iterate it) p' w') := by
  have hpoint := h.cauchy it.memory.keepFactor it.point.x it.point.g
  rw [cauchy_eq, cauchy_eq, h.unconstrained]
  split
  · exact ⟨rfl, hp, hw⟩
  · generalize Cauchy.point s.bounds.toBox it.memory.keepFactor it.point.x it.point.g = r at *
    change Level τ C d d' kept _ (passed s' (τ.iterate { it with memory := it.memory.keepFactor }) p' w'
      (Cauchy.point s'.bounds.toBox it.memory.keepFactor (τ.point it.point.x) it.point.g))
    rw [hpoint]
    cases r with
    | error why => exact unsolved_level hp hw why
    | ok c => exact ⟨rfl, hp, hw.emit⟩

theorem subspace_level (h : Moves τ C d d' s s') (hp : Even τ kept p p') (hw : Beside C d d' w w')
    (c : Option (CauchyPoint α n it.memory.size)) :
    Level τ C d d' kept (subspace s it c p w) (subspace s' (τ.iterate it) (c.map τ.cauchy) p' w') := by
  cases c with
  | none => exact ⟨rfl, hp, hw⟩
  | some c =>
      have hstep := h.subspace it.memory it.point.x it.point.g c
      rw [subspace_eq]
      generalize Subspace.minimize s.bounds.toBox it.memory it.point.x it.point.g c = r at *
      change Level τ C d d' kept _ (turned s' (τ.iterate it) p' w'
        (Subspace.minimize s'.bounds.toBox it.memory (τ.point it.point.x) it.point.g (τ.cauchy c)))
      rw [hstep]
      cases r with
      | error why => exact unsolved_level hp hw why
      | ok step =>
          refine ⟨rfl, hp, ?_⟩
          have htruncated : (τ.subspace step).truncated = step.truncated := rfl
          dsimp only [turned, Except.map]
          rw [htruncated]
          split
          · exact hw.emit
          · exact hw

theorem evaluating_level (h : Moves τ C d d' s s') (hp : Even τ kept p p') (hw : Beside C d d' w w')
    (m : Memory α n) : Level τ C d d' kept (evaluating s m p w) (evaluating s' m p' w') := by
  obtain ⟨hpoint, he, hworld⟩ := Evaluator.call_motion p.evaluator s.start h hw
  rw [evaluating, evaluating, h.start, hp.evaluator]
  generalize p.evaluator.call s.objective Tensor.ofVector s.start w = r at *
  generalize (τ.evaluator p.evaluator).call s'.objective Tensor.ofVector (τ.point s.start) w' = r' at *
  obtain ⟨r, e, v⟩ := r
  obtain ⟨r', e', v'⟩ := r'
  dsimp only at hpoint he hworld
  subst hpoint he
  have hp' : Even τ kept { p with evaluator := e } { p' with evaluator := τ.evaluator e } :=
    { hp with evaluator := rfl }
  cases r with
  | error why => cases why <;> exact ⟨rfl, hp', hworld⟩
  | ok point => exact ⟨rfl, hp', hworld⟩

/-- The two keep level in every step that shows nothing to a client. -/
theorem step_level (h : Moves τ C d d' s s') {st st' : State α κ n} (hst : Level τ C d d' kept st st')
    (hcheck : st.phase.iterate? = none) : Level τ C d d' kept (step s st) (step s' st') := by
  obtain ⟨phase, p, w⟩ := st
  obtain ⟨phase', p', w'⟩ := st'
  obtain ⟨hphase, hp, hw⟩ := hst
  dsimp only at hphase hp hw hcheck
  subst hphase
  cases phase with
  | start m => exact ⟨rfl, hp, hw.emit⟩
  | evaluating m => exact evaluating_level h hp hw m
  | check it => cases hcheck
  | cauchy it => exact cauchy_level h hp hw
  | subspace it c => exact subspace_level h hp hw c
  | search it d => exact searching_level h hp hw d
  | ended | escaped => exact ⟨rfl, hp, hw⟩

theorem report_motion (it : Iterate α n) (hp : Even τ kept p p') (previous norm : α) :
    report (τ.iterate it) (τ.value previous) norm p' = τ.record (report it previous norm p) := by
  have hx : (τ.iterate it).point.x.toList = τ.entries it.point.x.toList := τ.toList_point _
  have hdecrease : τ.value previous - (τ.iterate it).point.f = previous - it.point.f := τ.sub_value _ _
  simp only [report, hx, hdecrease, hp.iterations, hp.evaluator, hp.step, hp.outcome, hp.notes]
  rfl

theorem record_level (h : Moves τ C d d' s s') (hp : Even τ (alikeKept s s') p p') (hw : Beside C d d' w w')
    (hinspect : (if d' then inspect s' (τ.iterate it) else .ok ()) = if d then inspect s it else .ok ())
    (previous norm : α) :
    (record s' (τ.iterate it) (τ.value previous) norm p' w').1 = (record s it previous norm p w).1 ∧
      Even τ (alikeKept s s') (record s it previous norm p w).2.1
        (record s' (τ.iterate it) (τ.value previous) norm p' w').2.1 ∧
      Beside C d d' (record s it previous norm p w).2.2
        (record s' (τ.iterate it) (τ.value previous) norm p' w').2.2 := by
  have hreport := report_motion it hp previous norm
  simp only [record, hw.debug, hw.debug', hinspect]
  split
  · exact ⟨rfl, hp, hw⟩
  · rw [hreport]
    generalize report it previous norm p = r
    have hhistory : Even τ (alikeKept s s')
        { p with notes := [], history := if s.options.keepHistory.holds then p.history ++ [r] else p.history }
        { p' with
          notes := []
          history := if s'.options.keepHistory.holds then p'.history ++ [τ.record r] else p'.history } := by
      refine { hp with notes := rfl, history := fun hkept => ?_ }
      have hkept' : s'.options.keepHistory.holds = s.options.keepHistory.holds := hkept
      dsimp only
      rw [hkept', hp.history hkept]
      split
      · rw [List.map_append, List.map_singleton]
      · rfl
    have hcallback := h.callback
    generalize s.callback = f at hcallback
    generalize s'.callback = f' at hcallback
    cases hcallback with
    | none => exact ⟨rfl, hhistory, hw.emit⟩
    | some hf =>
        obtain ⟨hresult, hworld⟩ := hf r _ _ hw.emit
        exact ⟨hresult, hhistory, hworld⟩

/-- The two show a client the same, moved, unless the checks find fault with only one of them. -/
theorem reported_level (it : Iterate α n) (h : Moves τ C d d' s s') (hp : Even τ (alikeKept s s') p p')
    (hw : Beside C d d' w w')
    (hinspect : (if d' then inspect s' (τ.iterate it) else .ok ()) = if d then inspect s it else .ok ()) :
    (reported s' (τ.iterate it) p' w').1 = (reported s it p w).1 ∧
      Even τ (alikeKept s s') (reported s it p w).2.1 (reported s' (τ.iterate it) p' w').2.1 ∧
      Beside C d d' (reported s it p w).2.2 (reported s' (τ.iterate it) p' w').2.2 := by
  cases hprevious : it.previous with
  | none =>
      have hprevious' : (τ.iterate it).previous = none := congrArg (Option.map τ.value) hprevious
      rw [reported, reported, hprevious, hprevious']
      exact ⟨rfl, hp, hw⟩
  | some f =>
      have hprevious' : (τ.iterate it).previous = some (τ.value f) := congrArg (Option.map τ.value) hprevious
      have hnorm : s'.bounds.projectedGradientNorm (τ.iterate it).point.x (τ.iterate it).point.g =
          s.bounds.projectedGradientNorm it.point.x it.point.g := h.norm _ _
      rw [reported, reported, hprevious, hprevious']
      dsimp only
      rw [hnorm]
      exact record_level h hp hw hinspect f _

end Run

end BoxBfgs
