import BoxBfgs.Proofs.Run.Turn
import BoxBfgs.Solver.Basic

namespace BoxBfgs

/-- A call of an objective: the point it was called at, and its reply. -/
structure Call (α : Type) where
  x : Tensor α
  reply : Reply α (α × Tensor α)

/-- A client beside whom somebody writes down the calls of an objective, in their order. -/
abbrev Watched (α κ : Type) := κ × List (Call α)

namespace Call

variable {α : Type} [Scalar α]

/-- The point with its value and gradient, if the reply was finite and of the right length. -/
def point? (n : Nat) (c : Call α) : Option (Point α n) :=
  match c.reply with
  | .answer (f, g) =>
      match c.x.vector? n, g.vector? n with
      | some x, some g => if Scalar.isFinite f && Vec.isFinite g then some { x, f, g } else none
      | _, _ => none
  | .abort _ | .arithmetic _ _ | .fault _ => none

end Call

section

variable {α κ : Type}

namespace World

def plain (w : World α (Watched α κ)) : World α κ := { session := w.session, client := w.client.1 }

def watched (w : World α κ) (calls : List (Call α)) : World α (Watched α κ) :=
  { session := w.session, client := (w.client, calls) }

def calls (w : World α (Watched α κ)) : List (Call α) := w.client.2

variable (w : World α (Watched α κ))

@[simp] theorem plain_emit (id : Nat) (needed : Verbosity) (level : Level) (e : Event α) :
    (w.emit id needed level e).plain = w.plain.emit id needed level e := by
  rw [emit, emit, apply_ite plain]
  rfl

theorem calls_of_client {w w' : World α (Watched α κ)} (h : w'.client = w.client) : w'.calls = w.calls :=
  congrArg Prod.snd h

end World

def Objective.watched (o : Objective α (World α κ)) : Objective α (World α (Watched α κ)) :=
  .combined fun x w =>
    let (r, v) := o.call x w.plain
    (r, v.watched (w.calls ++ [⟨x, r⟩]))

def Callback.watched (f : Callback α κ) : Callback α (Watched α κ) := fun r w =>
  let (a, v) := f r w.plain
  (a, v.watched w.calls)

/-- The same run, with somebody who writes down the calls of its objective. -/
def Setup.watched {n : Nat} (s : Setup α κ n) : Setup α (Watched α κ) n :=
  { id := s.id, objective := s.objective.watched, callback := s.callback.map Callback.watched, options := s.options,
    bounds := s.bounds, start := s.start }

def State.plain {n : Nat} (st : State α (Watched α κ) n) : State α κ n := ⟨st.phase, st.progress, st.world.plain⟩

end

namespace Evaluator

variable {X α κ : Type} [Scalar α] {n : Nat} (e : Evaluator X α n) (o : Objective α (World α κ)) (view : X → Tensor α)
  (x : X) (w : World α (Watched α κ))

theorem call_plain : e.call o view x w.plain =
    ((e.call o.watched view x w).1, (e.call o.watched view x w).2.1, (e.call o.watched view x w).2.2.plain) := by
  have hwatched : o.watched.call (view x) w = ((o.call (view x) w.plain).1,
      (o.call (view x) w.plain).2.watched (w.calls ++ [⟨view x, (o.call (view x) w.plain).1⟩])) := rfl
  rw [call, call, hwatched]
  split
  · rfl
  · generalize o.call (view x) w.plain = r
    obtain ⟨r, v⟩ := r
    cases r with
    | answer a =>
        dsimp only
        split <;> rfl
    | abort | arithmetic | fault => rfl

theorem attempt_plain (d : Vector α n) : e.attempt o view d x w.plain =
    ((e.attempt o.watched view d x w).1, (e.attempt o.watched view d x w).2.1,
      (e.attempt o.watched view d x w).2.2.plain) := by
  rw [attempt, attempt, call_plain]
  generalize e.call o.watched view x w = r
  obtain ⟨why | p, e, v⟩ := r
  · cases why <;> rfl
  · rfl

end Evaluator

namespace Run

variable {α κ : Type} [Scalar α] {n : Nat} (s : Setup α κ n) (it : Iterate α n) (p : Progress α n)
  (w : World α (Watched α κ))

theorem breakdown_plain (why : Obstacle α) :
    (breakdown s.watched it why p w).plain = breakdown s it why p w.plain := by
  rw [breakdown, breakdown]
  split
  · rfl
  · simp [State.plain, note, Setup.watched]

theorem unsolved_plain (why : Unsolved α) : (unsolved s.watched it why p w).plain = unsolved s it why p w.plain := by
  cases why with
  | breakdown why => exact breakdown_plain s it p w _
  | nonFinite => rfl

theorem starting_plain (m : Memory α n) : (starting s.watched m p w).plain = starting s m p w.plain := by
  simp [starting, State.plain, Setup.watched]

theorem evaluating_plain (m : Memory α n) : (evaluating s.watched m p w).plain = evaluating s m p w.plain := by
  rw [evaluating, evaluating, Evaluator.call_plain]
  have hcall : p.evaluator.call s.watched.objective Tensor.ofVector s.watched.start w =
      p.evaluator.call s.objective.watched Tensor.ofVector s.start w := rfl
  rw [hcall]
  generalize p.evaluator.call s.objective.watched Tensor.ofVector s.start w = r
  obtain ⟨why | point, e, v⟩ := r
  · cases why <;> rfl
  · rfl

theorem cauchy_plain : (cauchy s.watched it p w).plain = cauchy s it p w.plain := by
  have hb : s.watched.bounds = s.bounds := rfl
  rw [cauchy, cauchy, hb]
  split
  · rfl
  · dsimp only
    split
    · exact unsolved_plain s _ p w _
    · simp [State.plain, Setup.watched]

theorem subspace_plain (c : Option (CauchyPoint α n it.memory.size)) :
    (subspace s.watched it c p w).plain = subspace s it c p w.plain := by
  cases c with
  | none => rfl
  | some c =>
      have hb : s.watched.bounds = s.bounds := rfl
      simp only [subspace, hb]
      split
      · exact unsolved_plain s _ p w _
      · split <;> simp [State.plain, Setup.watched]

theorem sought_plain (d : Vector α n) : sought s it d p w.plain =
    ((sought s.watched it d p w).1, (sought s.watched it d p w).2.1, (sought s.watched it d p w).2.2.plain) := by
  refine Line.search_map (f := fun ew : Evaluator (Vector α n) α n × World α (Watched α κ) => (ew.1, ew.2.plain))
    (fun t ew => ?_) _ _ _ _ _ (p.evaluator, w)
  exact Evaluator.attempt_plain ew.1 s.objective Tensor.ofVector _ ew.2 d

theorem rejected_plain (outcome : Outcome) :
    (rejected s.watched it outcome p w).plain = rejected s it outcome p w.plain := by
  simp only [rejected]
  split
  · rfl
  · split
    · rfl
    · simp [State.plain, note, Setup.watched]

theorem accepted_plain (outcome : Outcome) (t : α) (new : Point α n) :
    (accepted s.watched it outcome t new p w).plain = accepted s it outcome t new p w.plain := by
  simp only [accepted, note]
  split <;> split <;> simp [State.plain, Setup.watched]

theorem followed_plain (r : Except (Fault α) (Found α (Point α n))) (e : Evaluator (Vector α n) α n) :
    (followed s.watched it p (r, e, w)).plain = followed s it p (r, e, w.plain) := by
  cases r with
  | error why => rfl
  | ok found =>
      have hemit : (w.emit s.id .verbose 10 (.searched found.outcome found.evaluations found.step)).plain =
          w.plain.emit s.id .verbose 10 (.searched found.outcome found.evaluations found.step) := World.plain_emit _ _ _ _ _
      simp only [followed, ← hemit]
      split
      · rfl
      · exact rejected_plain s it _ _ _
      · exact accepted_plain s it _ _ _ _ _

theorem searching_plain (d : Vector α n) : (searching s.watched it d p w).plain = searching s it d p w.plain := by
  have hlongest : longestStep s.watched it.point.x d = longestStep s it.point.x d := rfl
  rw [searching_eq, searching_eq, sought_plain, hlongest]
  split
  · exact breakdown_plain s it p w _
  · split
    · exact breakdown_plain s it p w _
    · exact followed_plain s it p _ _ _

theorem record_plain (previous norm : α) : record s it previous norm p w.plain =
    ((record s.watched it previous norm p w).1, (record s.watched it previous norm p w).2.1,
      (record s.watched it previous norm p w).2.2.plain) := by
  have hinspect : (if w.plain.session.debug then inspect s it else .ok ()) =
    if w.session.debug then inspect s.watched it else .ok () := rfl
  rw [record, record, hinspect]
  split
  · rfl
  · have hcallback : s.watched.callback = s.callback.map Callback.watched := rfl
    rw [hcallback]
    cases s.callback with
    | none =>
        rw [Option.map_none]
        dsimp only
        rw [World.plain_emit]
        rfl
    | some f =>
        rw [Option.map_some]
        dsimp only [Callback.watched]
        rw [World.plain_emit]
        rfl

theorem reported_plain : reported s it p w.plain =
    ((reported s.watched it p w).1, (reported s.watched it p w).2.1, (reported s.watched it p w).2.2.plain) := by
  rw [reported, reported]
  split
  · rfl
  · exact record_plain s it p w _ _

theorem judged_plain (r : Except (Fault α) Unit) : (judged s.watched it (r, p, w)).plain = judged s it (r, p, w.plain) := by
  cases r with
  | error why => rfl
  | ok _ =>
      have hreason : reason? s.watched it (s.watched.bounds.projectedGradientNorm it.point.x it.point.g) p =
          reason? s it (s.bounds.projectedGradientNorm it.point.x it.point.g) p := rfl
      simp only [judged, hreason]
      split <;> rfl

theorem checking_plain : (checking s.watched it p w).plain = checking s it p w.plain := by
  rw [checking_eq, checking_eq, reported_plain]
  exact judged_plain s it _ _ _

theorem step_plain (st : State α (Watched α κ) n) : (step s.watched st).plain = step s st.plain := by
  obtain ⟨phase, p, w⟩ := st
  cases phase with
  | start m => exact starting_plain s p w m
  | evaluating m => exact evaluating_plain s p w m
  | check it => exact checking_plain s it p w
  | cauchy it => exact cauchy_plain s it p w
  | subspace it c => exact subspace_plain s it p w c
  | search it d => exact searching_plain s it p w d
  | ended | escaped => rfl

theorem loop_plain (fuel : Nat) (st : State α (Watched α κ) n) : (loop s.watched fuel st).plain = loop s fuel st.plain := by
  induction fuel generalizing st with
  | zero => rfl
  | succ fuel ih =>
      rw [loop, loop, ← step_plain, ← ih, apply_ite State.plain]
      rfl

theorem run_plain (m : Memory α n) : (run s.watched m w).plain = run s m w.plain := loop_plain s _ _

end Run

section

variable {α κ : Type}

/-- The same offer with an objective whose calls are written down. -/
def Offer.watched : Offer α (World α κ) → Offer α (World α (Watched α κ))
  | .objective _ f | .function f => .function (Objective.combined f).watched.call
  | .object _ (some v) (some g) | .pair (some v) (some g) => .function (Objective.split v g).watched.call
  | .object sort _ _ | .other sort => .other sort
  | .pair _ _ => .other "tuple"

theorem Offer.adapt_watched (offer : Offer α (World α κ)) : offer.watched.adapt = offer.adapt.map Objective.watched := by
  cases offer with
  | objective | function | other => rfl
  | object sort v g | pair v g => cases v <;> cases g <;> rfl

namespace Solver

def Problem.watched (p : Problem α (World α κ)) : Problem α (World α (Watched α κ)) :=
  { n := p.n, objective := p.objective.watched, options := p.options, bounds := p.bounds, start := p.start }

def watched (v : Solver α κ) : Solver α (Watched α κ) :=
  { id := v.id, options := v.options, iterations := v.iterations, evaluations := v.evaluations, history := v.history,
    memory := v.memory, callback := v.callback.map Callback.watched }

/-- What a run needs to know of a solver and a problem. -/
def toSetup (v : Solver α κ) (p : Problem α (World α κ)) : Setup α κ p.n :=
  { id := v.id, objective := p.objective, callback := v.callback, options := p.options, bounds := p.bounds,
    start := p.start }

theorem enter_plain (w : World α (Watched α κ)) (id : Nat) (verbosity : Verbosity) :
    w.plain.enter id verbosity = ((w.enter id verbosity).1.plain, (w.enter id verbosity).2) := by
  simp only [World.enter]
  split <;> rfl

theorem calls_enter (w : World α (Watched α κ)) (id : Nat) (verbosity : Verbosity) :
    (w.enter id verbosity).1.calls = w.calls := by
  simp only [World.enter]
  split <;> rfl

theorem leave_plain (w : World α (Watched α κ)) (id : Nat) (saved : Option Log.Saved) :
    w.plain.leave id saved = (w.leave id saved).plain := by
  cases saved <;> rfl

variable (v : Solver α κ)

/-- What a solver makes of the last state of a run. -/
def closed (p : Problem α (World α κ)) (saved : Option Log.Saved) (st : State α κ p.n) :
    Except (Fault α) (Answer α) × Solver α κ × World α κ :=
  let after : Solver α κ :=
    { v with iterations := 0, evaluations := 0, history := st.progress.history,
             memory := some ⟨p.n, st.phase.memory⟩ }
  match st.phase with
  | .ended _ current reason =>
      let count := st.progress.evaluator.count
      let status : Status α := { reason, iterations := st.progress.iterations, evaluations := count }
      let point := chosen current reason st.progress.evaluator
      let w := st.world.emit v.id .summary 20 (.finished status (point.map (·.f)))
      (.ok (answer p.start point status), { after with iterations := st.progress.iterations, evaluations := count },
        w.leave v.id saved)
  | .escaped _ why => (.error why, after, st.world.leave v.id saved)
  | _ => (.error .unfinished, after, st.world.leave v.id saved)

theorem closed_plain (p : Problem α (World α κ)) (saved : Option Log.Saved) (st : State α (Watched α κ) p.n) :
    (v.watched.closed p.watched saved st).1 = (v.closed p saved st.plain).1 ∧
      (v.watched.closed p.watched saved st).2.1 = (v.closed p saved st.plain).2.1.watched ∧
      (v.watched.closed p.watched saved st).2.2.plain = (v.closed p saved st.plain).2.2 := by
  obtain ⟨phase, progress, w⟩ := st
  cases phase with
  | ended m c r =>
      refine ⟨rfl, rfl, ?_⟩
      simp only [closed, State.plain, ← leave_plain, World.plain_emit]
      rfl
  | escaped | start | evaluating | check | cauchy | subspace | search => exact ⟨rfl, rfl, (leave_plain _ _ _).symm⟩

variable [Scalar α]

/-- The calls of the objective that a minimisation makes. -/
def calls (offer : Offer α (World α κ)) (start : Start α) (options : Except (Fault α) (Options α)) (w : World α κ) :
    List (Call α) :=
  (v.watched.minimize offer.watched start options (w.watched [])).2.2.calls

/-- The last state of the run of a problem. -/
def final (p : Problem α (World α κ)) (w : World α κ) : State α κ p.n :=
  Run.run (v.toSetup p) (.renew v.memory p.n p.options.depth) (w.enter v.id p.options.verbosity).1

theorem final_plain (p : Problem α (World α κ)) (w : World α (Watched α κ)) :
    (v.watched.final p.watched w).plain = v.final p w.plain := by
  have hrun := Run.run_plain (v.toSetup p) (w.enter v.id p.options.verbosity).1
    (.renew v.memory p.n p.options.depth)
  rw [final.eq_def v, enter_plain]
  exact hrun

theorem solve_eq (p : Problem α (World α κ)) (w : World α κ) :
    v.solve p w = v.closed p (w.enter v.id p.options.verbosity).2 (v.final p w) := rfl

theorem solve_plain (p : Problem α (World α κ)) (w : World α (Watched α κ)) :
    (v.watched.solve p.watched w).1 = (v.solve p w.plain).1 ∧
      (v.watched.solve p.watched w).2.1 = (v.solve p w.plain).2.1.watched ∧
      (v.watched.solve p.watched w).2.2.plain = (v.solve p w.plain).2.2 := by
  have hsaved : (w.plain.enter v.id p.options.verbosity).2 = (w.enter v.id p.options.verbosity).2 := by
    rw [enter_plain]
  rw [solve_eq, solve_eq, hsaved, ← final_plain]
  exact closed_plain v p _ _

theorem place_watched (f : Objective α (World α κ)) (o : Options α) (start : Start α) :
    place f.watched o start = (place f o start).map Problem.watched := by
  simp only [place, refuse]
  split
  · rfl
  · rfl
  · split
    · rfl
    · split
      · rfl
      · split
        · rfl
        · split <;> rfl

theorem prepare_watched (options : Except (Fault α) (Options α)) (offer : Offer α (World α κ)) (start : Start α) :
    prepare options offer.watched start = (prepare options offer start).map Problem.watched := by
  cases options with
  | error why => rfl
  | ok o =>
      have hadapt := offer.adapt_watched
      cases h : offer.adapt with
      | error why =>
          rw [h] at hadapt
          simp [prepare, Except.bind, Except.map, h, hadapt]
      | ok f =>
          rw [h] at hadapt
          simp [prepare, Except.bind, Except.map, h, hadapt, place_watched]

theorem minimize_plain (offer : Offer α (World α κ)) (start : Start α) (options : Except (Fault α) (Options α))
    (w : World α (Watched α κ)) :
    (v.watched.minimize offer.watched start options w).1 = (v.minimize offer start options w.plain).1 ∧
      (v.watched.minimize offer.watched start options w).2.1 = (v.minimize offer start options w.plain).2.1.watched ∧
      (v.watched.minimize offer.watched start options w).2.2.plain = (v.minimize offer start options w.plain).2.2 := by
  have hrunning : w.plain.isRunning v.id = w.isRunning v.watched.id := rfl
  have hreject (why : Invalid α) : (reject start why w.plain).1 = (reject start why w).1 ∧
      (reject start why w.plain).2 = (reject start why w).2.plain := by
    simp only [reject]
    split <;> exact ⟨rfl, rfl⟩
  rw [minimize, minimize, hrunning, prepare_watched]
  split
  · exact ⟨rfl, rfl, rfl⟩
  · cases prepare options offer start with
    | ok p => exact solve_plain v p w
    | error why =>
        cases why with
        | invalid why => exact ⟨(hreject why).1.symm, rfl, (hreject why).2.symm⟩
        | _ => exact ⟨rfl, rfl, rfl⟩

end Solver

end

end BoxBfgs
