import BoxBfgs.Proofs.Run.Motion

namespace BoxBfgs

section

variable {α κ κ' : Type} (R : World α κ → World α κ' → Prop)

/-- Objectives that reply alike in worlds of two kinds, and keep the two related. -/
def Objective.Tandem (f : Objective α (World α κ)) (f' : Objective α (World α κ')) : Prop :=
  ∀ x {w w'}, R w w' → (f'.call x w').1 = (f.call x w).1 ∧ R (f.call x w).2 (f'.call x w').2

/-- An iterate shown to a client, who may have no callback for it. -/
def Callback.shown (f : Option (Callback α κ)) (r : Record α) (w : World α κ) : Except (Fault α) Unit × World α κ :=
  match f with
  | none => (.ok (), w)
  | some f => f r w

def Callback.Tandem (f : Option (Callback α κ)) (f' : Option (Callback α κ')) : Prop :=
  ∀ r {w w'}, R w w' → (shown f' r w').1 = (shown f r w).1 ∧ R (shown f r w).2 (shown f' r w').2

/-- Offers that are refused alike, or adapted to objectives that reply alike. -/
inductive Offer.Tandem (offer : Offer α (World α κ)) (offer' : Offer α (World α κ')) : Prop
  | refused {why : Fault α} (h : offer.adapt = .error why) (h' : offer'.adapt = .error why)
  | adapted {f : Objective α (World α κ)} {f' : Objective α (World α κ')} (h : offer.adapt = .ok f)
      (h' : offer'.adapt = .ok f') (hf : f.Tandem R f')

/-- A relation of worlds that nothing a solver does takes apart. -/
structure World.Bond : Prop where
  debug : ∀ {w w'}, R w w' → w'.session.debug = w.session.debug
  running : ∀ {w w'}, R w w' → w'.session.running = w.session.running
  emit : ∀ id needed level e {w w'}, R w w' → R (w.emit id needed level e) (w'.emit id needed level e)
  rejected : ∀ why {w w'}, R w w' → R (w.mapLog fun l => l.emit World.logger 10 (.rejected why))
    (w'.mapLog fun l => l.emit World.logger 10 (.rejected why))
  enter : ∀ id verbosity {w w'}, R w w' → (w'.enter id verbosity).2 = (w.enter id verbosity).2 ∧
    R (w.enter id verbosity).1 (w'.enter id verbosity).1
  leave : ∀ id saved {w w'}, R w w' → R (w.leave id saved) (w'.leave id saved)

/-- The same run for another client. -/
def Setup.serving {n : Nat} (s : Setup α κ n) (f' : Objective α (World α κ')) (c' : Option (Callback α κ')) :
    Setup α κ' n :=
  { id := s.id, objective := f', callback := c', options := s.options, bounds := s.bounds, start := s.start }

end

namespace Lift

variable {α P : Type} [Scalar α]

@[simp] theorem attempt_still (a : Attempt α P) : (still α).attempt id a = a := by
  cases a <;> rfl

end Lift

@[simp] theorem Found.map_id {α P : Type} (found : Found α P) : found.map id = found := by
  obtain ⟨step, point, evaluations, outcome, fault⟩ := found
  cases point <;> rfl

namespace Run

/-- What a relation of worlds has to keep for a run to go on alike in both, as long as it shows nothing. -/
structure Tandem {α κ κ' : Type} (R : World α κ → World α κ' → Prop) {n : Nat} (s : Setup α κ n)
    (f' : Objective α (World α κ')) : Prop where
  debug : ∀ {w w'}, R w w' → w'.session.debug = w.session.debug
  /-- Every record of a run needs some verbosity. -/
  emit : ∀ needed level e, needed ≠ .silent → ∀ {w w'}, R w w' →
    R (w.emit s.id needed level e) (w'.emit s.id needed level e)
  objective : s.objective.Tandem R f'

/-- Runs at the same place in related worlds. -/
structure Together {α κ κ' : Type} (R : World α κ → World α κ' → Prop) {n : Nat} (st : State α κ n)
    (st' : State α κ' n) : Prop where
  phase : st'.phase = st.phase
  progress : st'.progress = st.progress
  world : R st.world st'.world

end Run

namespace Evaluator

variable {α κ κ' : Type} [Scalar α] {n : Nat} {R : World α κ → World α κ' → Prop} {o : Objective α (World α κ)}
  {o' : Objective α (World α κ')} (e : Evaluator (Vector α n) α n) (x : Vector α n) {w : World α κ} {w' : World α κ'}

theorem call_tandem (h : o.Tandem R o') (hw : R w w') :
    (e.call o' Tensor.ofVector x w').1 = (e.call o Tensor.ofVector x w).1 ∧
      (e.call o' Tensor.ofVector x w').2.1 = (e.call o Tensor.ofVector x w).2.1 ∧
      R (e.call o Tensor.ofVector x w).2.2 (e.call o' Tensor.ofVector x w').2.2 := by
  obtain ⟨hreply, hworld⟩ := h (.ofVector x) hw
  rw [call, call]
  split
  · exact ⟨rfl, rfl, hw⟩
  · generalize o.call (.ofVector x) w = r at *
    generalize o'.call (.ofVector x) w' = r' at *
    obtain ⟨r, v⟩ := r
    obtain ⟨r', v'⟩ := r'
    dsimp only at hreply hworld
    subst hreply
    cases r' with
    | answer a =>
        dsimp only
        split <;> exact ⟨rfl, rfl, hworld⟩
    | abort | arithmetic | fault => exact ⟨rfl, rfl, hworld⟩

theorem attempt_tandem (h : o.Tandem R o') (hw : R w w') (d : Vector α n) :
    (e.attempt o' Tensor.ofVector d x w').1 = (e.attempt o Tensor.ofVector d x w).1 ∧
      (e.attempt o' Tensor.ofVector d x w').2.1 = (e.attempt o Tensor.ofVector d x w).2.1 ∧
      R (e.attempt o Tensor.ofVector d x w).2.2 (e.attempt o' Tensor.ofVector d x w').2.2 := by
  obtain ⟨hpoint, hevaluator, hworld⟩ := e.call_tandem x h hw
  rw [attempt, attempt]
  generalize e.call o Tensor.ofVector x w = r at *
  generalize e.call o' Tensor.ofVector x w' = r' at *
  obtain ⟨r, e1, v⟩ := r
  obtain ⟨r', e1', v'⟩ := r'
  dsimp only at hpoint hevaluator hworld
  subst hpoint hevaluator
  cases r' with
  | error why => cases why <;> exact ⟨rfl, rfl, hworld⟩
  | ok p => exact ⟨rfl, rfl, hworld⟩

end Evaluator

namespace Run

variable {α κ κ' : Type} [Scalar α] {n : Nat} {R : World α κ → World α κ' → Prop} {s : Setup α κ n}
  {f' : Objective α (World α κ')} {c' : Option (Callback α κ')} {it : Iterate α n} {p : Progress α n} {w : World α κ}
  {w' : World α κ'}

theorem record_eq (previous norm : α) : record s it previous norm p w =
    match if w.session.debug then inspect s it else .ok () with
    | .error why => (.error why, p, w)
    | .ok () =>
        let r := report it previous norm p
        let shown := Callback.shown s.callback r (w.emit s.id .iterations 20 (.iterated r))
        (shown.1, { p with notes := [], history := if s.options.keepHistory.holds then p.history ++ [r] else p.history },
          shown.2) := by
  rw [record]
  generalize (if w.session.debug then inspect s it else .ok ()) = inspected
  cases inspected with
  | error why => rfl
  | ok _ => cases hc : s.callback <;> simp only [Callback.shown]

section

variable (h : Tandem R s f') (hw : R w w')

include h hw

theorem breakdown_together (why : Obstacle α) :
    Together R (breakdown s it why p w) (breakdown (s.serving f' c') it why p w') := by
  rw [breakdown, breakdown]
  split
  · exact ⟨rfl, rfl, hw⟩
  · exact ⟨rfl, rfl, h.emit .summary _ _ (by decide) hw⟩

theorem unsolved_together (why : Unsolved α) :
    Together R (unsolved s it why p w) (unsolved (s.serving f' c') it why p w') := by
  cases why with
  | breakdown why => exact breakdown_together h hw _
  | nonFinite => exact ⟨rfl, rfl, hw⟩

theorem evaluating_together (m : Memory α n) :
    Together R (evaluating s m p w) (evaluating (s.serving f' c') m p w') := by
  obtain ⟨hpoint, he, hworld⟩ := p.evaluator.call_tandem s.start h.objective hw
  have hcall : p.evaluator.call (s.serving f' c').objective Tensor.ofVector (s.serving f' c').start w' =
      p.evaluator.call f' Tensor.ofVector s.start w' := rfl
  rw [evaluating, evaluating, hcall]
  generalize p.evaluator.call s.objective Tensor.ofVector s.start w = r at *
  generalize p.evaluator.call f' Tensor.ofVector s.start w' = r' at *
  obtain ⟨r, e, v⟩ := r
  obtain ⟨r', e', v'⟩ := r'
  dsimp only at hpoint he hworld
  -- Both calls came to the same, so the cases of one are those of the other.
  subst hpoint he
  cases r' with
  | error why => cases why <;> exact ⟨rfl, rfl, hworld⟩
  | ok point => exact ⟨rfl, rfl, hworld⟩

theorem cauchy_together : Together R (cauchy s it p w) (cauchy (s.serving f' c') it p w') := by
  have hb : (s.serving f' c').bounds = s.bounds := rfl
  rw [cauchy, cauchy, hb]
  split
  · exact ⟨rfl, rfl, hw⟩
  · dsimp only
    split
    · exact unsolved_together h hw _
    · exact ⟨rfl, rfl, h.emit .verbose _ _ (by decide) hw⟩

theorem subspace_together (c : Option (CauchyPoint α n it.memory.size)) :
    Together R (subspace s it c p w) (subspace (s.serving f' c') it c p w') := by
  cases c with
  | none => exact ⟨rfl, rfl, hw⟩
  | some c =>
      have hb : (s.serving f' c').bounds = s.bounds := rfl
      simp only [subspace, hb]
      split
      · exact unsolved_together h hw _
      · split
        · exact ⟨rfl, rfl, h.emit .verbose _ _ (by decide) hw⟩
        · exact ⟨rfl, rfl, hw⟩

theorem sought_together (d : Vector α n) :
    (sought (s.serving f' c') it d p w').1 = (sought s it d p w).1 ∧
      (sought (s.serving f' c') it d p w').2.1 = (sought s it d p w).2.1 ∧
      R (sought s it d p w).2.2 (sought (s.serving f' c') it d p w').2.2 := by
  have htried (t : α) (ew : Evaluator (Vector α n) α n × World α κ) (ew' : Evaluator (Vector α n) α n × World α κ')
      (hew : ew'.1 = ew.1 ∧ R ew.2 ew'.2) :
      (tried (s.serving f' c') it d t ew').1 = (Lift.still α).attempt id (tried s it d t ew).1 ∧
        (tried (s.serving f' c') it d t ew').2.1 = (tried s it d t ew).2.1 ∧
        R (tried s it d t ew).2.2 (tried (s.serving f' c') it d t ew').2.2 := by
    obtain ⟨e, v⟩ := ew
    obtain ⟨e', v'⟩ := ew'
    obtain ⟨he, hv⟩ := hew
    dsimp only at he hv
    subst he
    rw [Lift.attempt_still]
    exact e'.attempt_tandem (trial s it.point.x d t) h.objective hv d
  -- A search is the same program whatever it tries: trials that agree lift to searches that agree.
  obtain ⟨hfound, hrest⟩ := Line.search_lift (.still α) id htried s.options.line it.point.f (Vec.dot it.point.g d)
    (initialStep s p.iterations it.point.g (longestStep s it.point.x d)) (longestStep s it.point.x d)
    (And.intro (Eq.refl p.evaluator) hw : (p.evaluator, w').1 = (p.evaluator, w).1 ∧ _)
  refine ⟨hfound.trans ?_, hrest⟩
  change (sought s it d p w).1.map (Found.map id) = _
  cases (sought s it d p w).1 with
  | error why => rfl
  | ok found => exact congrArg Except.ok (Found.map_id found)

theorem rejected_together (outcome : Outcome) :
    Together R (rejected s it outcome p w) (rejected (s.serving f' c') it outcome p w') := by
  simp only [rejected]
  split
  · exact ⟨rfl, rfl, hw⟩
  · split
    · exact ⟨rfl, rfl, hw⟩
    · exact ⟨rfl, rfl, h.emit .summary _ _ (by decide) hw⟩

theorem accepted_together (outcome : Outcome) (t : α) (new : Point α n) :
    Together R (accepted s it outcome t new p w) (accepted (s.serving f' c') it outcome t new p w') := by
  have hnoted : R (if outcome = .converged then (p, w) else note s (.warned outcome t) p w).2
      (if outcome = .converged then (p, w') else note (s.serving f' c') (.warned outcome t) p w').2 := by
    split
    · exact hw
    · exact h.emit .summary _ _ (by decide) hw
  have hprogress : (if outcome = .converged then (p, w') else note (s.serving f' c') (.warned outcome t) p w').1 =
      (if outcome = .converged then (p, w) else note s (.warned outcome t) p w).1 := by
    split <;> rfl
  simp only [accepted]
  generalize (if outcome = .converged then (p, w) else note s (.warned outcome t) p w) = r at *
  generalize (if outcome = .converged then (p, w') else note (s.serving f' c') (.warned outcome t) p w') = r' at *
  obtain ⟨q, v⟩ := r
  obtain ⟨q', v'⟩ := r'
  dsimp only at hnoted hprogress
  subst hprogress
  split
  · exact ⟨rfl, rfl, hnoted⟩
  · exact ⟨rfl, rfl, h.emit .verbose _ _ (by decide) hnoted⟩
  · exact ⟨rfl, rfl, hnoted⟩

theorem followed_together (r : Except (Fault α) (Found α (Point α n))) (e : Evaluator (Vector α n) α n) :
    Together R (followed s it p (r, e, w)) (followed (s.serving f' c') it p (r, e, w')) := by
  cases r with
  | error why => exact ⟨rfl, rfl, hw⟩
  | ok found =>
      have hworld := h.emit .verbose 10 (.searched found.outcome found.evaluations found.step) (by decide) hw
      simp only [followed]
      split
      · exact ⟨rfl, rfl, hworld⟩
      · exact rejected_together h hworld _
      · exact accepted_together h hworld _ _ _

theorem searching_together (d : Vector α n) :
    Together R (searching s it d p w) (searching (s.serving f' c') it d p w') := by
  have hlongest : longestStep (s.serving f' c') it.point.x d = longestStep s it.point.x d := rfl
  obtain ⟨hfound, he, hworld⟩ : (sought (s.serving f' c') it d p w').1 = (sought s it d p w).1 ∧ _ ∧ R _ _ :=
    sought_together h hw d
  rw [searching_eq, searching_eq, hlongest]
  split
  · exact breakdown_together h hw _
  · split
    · exact breakdown_together h hw _
    · generalize sought s it d p w = r at *
      generalize sought (s.serving f' c') it d p w' = r' at *
      obtain ⟨r, e, v⟩ := r
      obtain ⟨r', e', v'⟩ := r'
      dsimp only at hfound he hworld
      subst hfound he
      exact followed_together h hworld _ _

theorem reported_together (hc : Callback.Tandem R s.callback c') :
    (reported (s.serving f' c') it p w').1 = (reported s it p w).1 ∧
      (reported (s.serving f' c') it p w').2.1 = (reported s it p w).2.1 ∧
      R (reported s it p w).2.2 (reported (s.serving f' c') it p w').2.2 := by
  have hinspect : (if w'.session.debug then inspect (s.serving f' c') it else .ok ()) =
      if w.session.debug then inspect s it else .ok () := by
    rw [h.debug hw]
    rfl
  rw [reported, reported]
  split
  · exact ⟨rfl, rfl, hw⟩
  · rw [record_eq, record_eq, hinspect]
    split
    · exact ⟨rfl, rfl, hw⟩
    · obtain ⟨hresult, hworld⟩ := hc (report it _ _ p) (h.emit .iterations 20 _ (by decide) hw)
      exact ⟨hresult, rfl, hworld⟩

theorem checking_together (hc : Callback.Tandem R s.callback c') :
    Together R (checking s it p w) (checking (s.serving f' c') it p w') := by
  obtain ⟨hresult, hp, hworld⟩ : (reported (s.serving f' c') it p w').1 = (reported s it p w).1 ∧ _ ∧ R _ _ :=
    reported_together h hw hc
  rw [checking_eq, checking_eq]
  generalize reported s it p w = r at *
  generalize reported (s.serving f' c') it p w' = r' at *
  obtain ⟨r, q, v⟩ := r
  obtain ⟨r', q', v'⟩ := r'
  dsimp only at hresult hp hworld
  subst hresult hp
  cases r' with
  | error why => exact ⟨rfl, rfl, hworld⟩
  | ok _ =>
      have hreason : reason? (s.serving f' c') it
          ((s.serving f' c').bounds.projectedGradientNorm it.point.x it.point.g) q' =
          reason? s it (s.bounds.projectedGradientNorm it.point.x it.point.g) q' := rfl
      simp only [judged, hreason]
      split <;> exact ⟨rfl, rfl, hworld⟩

end

section

variable (h : Tandem R s f') {st : State α κ n} {st' : State α κ' n} (hst : Together R st st')

include h hst

/-- A step that shows nothing, whatever the callbacks. -/
theorem step_unshown (hcheck : st.phase.iterate? = none) :
    Together R (step s st) (step (s.serving f' c') st') := by
  obtain ⟨phase, p, w⟩ := st
  obtain ⟨phase', p', w'⟩ := st'
  obtain ⟨hphase, hp, hw⟩ := hst
  dsimp only at hphase hp hw hcheck
  subst hphase hp
  cases phase' with
  | start m => exact ⟨rfl, rfl, h.emit .summary _ _ (by decide) hw⟩
  | evaluating m => exact evaluating_together h hw m
  | check it => cases hcheck
  | cauchy it => exact cauchy_together h hw
  | subspace it c => exact subspace_together h hw c
  | search it d => exact searching_together h hw d
  | ended | escaped => exact ⟨rfl, rfl, hw⟩

theorem step_together (hc : Callback.Tandem R s.callback c') :
    Together R (step s st) (step (s.serving f' c') st') := by
  cases hit : st.phase.iterate? with
  | none => exact step_unshown h hst hit
  | some it =>
      obtain ⟨phase, p, w⟩ := st
      obtain ⟨phase', p', w'⟩ := st'
      obtain ⟨hphase, hp, hw⟩ := hst
      dsimp only at hphase hp hw hit
      subst hphase hp
      obtain rfl := Phase.iterate?_eq_some.mp hit
      exact checking_together h hw hc

end

theorem after_together (h : Tandem R s f') (hc : Callback.Tandem R s.callback c') (hw : R w w') (m : Memory α n)
    (k : Nat) : Together R (after s m w k) (after (s.serving f' c') m w' k) := by
  induction k with
  | zero => exact ⟨rfl, rfl, hw⟩
  | succ k ih =>
      rw [after_succ, after_succ]
      exact step_together h ih hc

section

variable {J : World α κ → Prop} (hemit : ∀ needed level e, needed ≠ .silent → ∀ {w}, J w → J (w.emit s.id needed level e))
  (hobjective : ∀ x {w}, J w → J (s.objective.call x w).2)

include hemit hobjective

omit [Scalar α] in
theorem tandem_self : Tandem (fun w w' => w' = w ∧ J w) s s.objective where
  debug hw := by rw [hw.1]
  emit needed level e hloud w w' hw := ⟨by rw [hw.1], hemit needed level e hloud hw.2⟩
  objective x w w' hw := by
    rw [hw.1]
    exact ⟨rfl, rfl, hobjective x hw.2⟩

/-- What records and objectives keep of a world, a step keeps that shows nothing. -/
theorem step_world {st : State α κ n} (hcheck : st.phase.iterate? = none) (hst : J st.world) : J (step s st).world := by
  -- The run beside itself: the worlds stay equal, and the relation takes the property along.
  have htogether : Together (fun w w' => w' = w ∧ J w) (step s st) (step (s.serving s.objective s.callback) st) :=
    step_unshown (tandem_self hemit hobjective) ⟨rfl, rfl, rfl, hst⟩ hcheck
  exact htogether.world.2

/-- What callbacks keep as well, a run keeps. -/
theorem after_world (hcallback : ∀ r {w}, J w → J (Callback.shown s.callback r w).2) (m : Memory α n) (hw : J w)
    (k : Nat) : J (after s m w k).world := by
  have hc : Callback.Tandem (fun w w' => w' = w ∧ J w) s.callback s.callback := fun r w w' hw => by
    rw [hw.1]
    exact ⟨rfl, rfl, hcallback r hw.2⟩
  exact (after_together (tandem_self hemit hobjective) hc ⟨rfl, hw⟩ m k).world.2

end

end Run

namespace Solver

section

variable {α κ κ' : Type}

/-- The same solver with a callback of another client. -/
def serving (v : Solver α κ) (c' : Option (Callback α κ')) : Solver α κ' :=
  { id := v.id, options := v.options, iterations := v.iterations, evaluations := v.evaluations, history := v.history,
    memory := v.memory, callback := c' }

def Problem.serving (p : Problem α (World α κ)) (f' : Objective α (World α κ')) : Problem α (World α κ') :=
  { n := p.n, objective := f', options := p.options, bounds := p.bounds, start := p.start }

/-- Results that are the same but for the clients, who are related. -/
structure Level (R : World α κ → World α κ' → Prop) (c' : Option (Callback α κ'))
    (r : Except (Fault α) (Answer α) × Solver α κ × World α κ)
    (r' : Except (Fault α) (Answer α) × Solver α κ' × World α κ') : Prop where
  answer : r'.1 = r.1
  solver : r'.2.1 = r.2.1.serving c'
  world : R r.2.2 r'.2.2

end

variable {α κ κ' : Type} {R : World α κ → World α κ' → Prop} {v : Solver α κ} {f' : Objective α (World α κ')}
  {c' : Option (Callback α κ')} {w : World α κ} {w' : World α κ'}

theorem closed_level (hR : World.Bond R) (p : Problem α (World α κ)) (saved : Option Log.Saved) {st : State α κ p.n}
    {st' : State α κ' p.n} (h : Run.Together R st st') :
    Level R c' (v.closed p saved st) ((v.serving c').closed (p.serving f') saved st') := by
  obtain ⟨phase, q, w⟩ := st
  obtain ⟨phase', q', w'⟩ := st'
  obtain ⟨hphase, hq, hw⟩ := h
  dsimp only at hphase hq hw
  subst hphase hq
  cases phase' with
  | ended m c r => exact ⟨rfl, rfl, hR.leave _ _ (hR.emit _ _ _ _ hw)⟩
  | escaped | start | evaluating | check | cauchy | subspace | search => exact ⟨rfl, rfl, hR.leave _ _ hw⟩

variable [Scalar α]

theorem solve_level (hR : World.Bond R) {p : Problem α (World α κ)} (hf : p.objective.Tandem R f')
    (hc : Callback.Tandem R v.callback c') (hw : R w w') :
    Level R c' (v.solve p w) ((v.serving c').solve (p.serving f') w') := by
  obtain ⟨hsaved, henter⟩ := hR.enter v.id p.options.verbosity hw
  have htandem : Run.Tandem R (v.toSetup p) f' := ⟨hR.debug, fun needed level e _ => hR.emit v.id needed level e, hf⟩
  have hrun := Run.after_together htandem hc henter (.renew v.memory p.n p.options.depth)
    (Run.fuel p.options.iterations.rounds)
  rw [solve_eq, solve_eq, final_eq_trace, final_eq_trace]
  change Level R c' _ ((v.serving c').closed (p.serving f') (w'.enter v.id p.options.verbosity).2 _)
  rw [hsaved]
  exact closed_level hR p _ hrun

theorem place_serving (f : Objective α (World α κ)) (o : Options α) (start : Start α) :
    place f' o start = (place f o start).map fun p => p.serving f' := by
  simp only [place, refuse]
  split
  · rfl
  · rfl
  · split
    · rfl
    · split
      · rfl
      · split
        · rfl
        · split <;> rfl

/-- Calls of offers that go together are prepared alike. -/
theorem prepare_tandem {offer : Offer α (World α κ)} {offer' : Offer α (World α κ')} (h : offer.Tandem R offer')
    (options : Except (Fault α) (Options α)) (start : Start α) :
    (∃ why, prepare options offer start = .error why ∧ prepare options offer' start = .error why) ∨
      ∃ p f', prepare options offer start = .ok p ∧ prepare options offer' start = .ok (p.serving f') ∧
        p.objective.Tandem R f' := by
  cases options with
  | error why => exact .inl ⟨why, rfl, rfl⟩
  | ok o =>
      cases h with
      | @refused why h h' =>
          refine .inl ⟨why, ?_, ?_⟩
          · simp only [prepare, h, Except.bind]
          · simp only [prepare, h', Except.bind]
      | @adapted f f' h h' hf =>
          have hprepare : prepare (.ok o) offer start = place f o start := by simp only [prepare, h, Except.bind]
          have hprepare' : prepare (.ok o) offer' start = (place f o start).map fun p => p.serving f' := by
            simp only [prepare, h', Except.bind]
            exact place_serving f o start
          rw [hprepare, hprepare']
          cases hp : place f o start with
          | error why => exact .inl ⟨why, rfl, rfl⟩
          | ok p => exact .inr ⟨p, f', rfl, rfl, (place_options hp).2 ▸ hf⟩

theorem minimize_level (hR : World.Bond R) (hc : Callback.Tandem R v.callback c') {offer : Offer α (World α κ)}
    {offer' : Offer α (World α κ')} (ho : offer.Tandem R offer') (start : Start α)
    (options : Except (Fault α) (Options α)) (hw : R w w') :
    Level R c' (v.minimize offer start options w) ((v.serving c').minimize offer' start options w') := by
  have hrunning : w'.isRunning (v.serving c').id = w.isRunning v.id := by
    rw [World.isRunning, World.isRunning, hR.running hw]
    rfl
  rw [minimize, minimize, hrunning]
  split
  · exact ⟨rfl, rfl, hw⟩
  · rcases prepare_tandem ho options start with ⟨why, hp, hp'⟩ | ⟨p, f', hp, hp', hf⟩
    · rw [hp, hp']
      cases why with
      | invalid why =>
          dsimp only [reject]
          split
          · exact ⟨rfl, rfl, hw⟩
          · exact ⟨rfl, rfl, hR.rejected _ hw⟩
          · exact ⟨rfl, rfl, hR.rejected _ hw⟩
      | _ => exact ⟨rfl, rfl, hw⟩
    · rw [hp, hp']
      exact solve_level hR hf hc hw

end Solver

end BoxBfgs
