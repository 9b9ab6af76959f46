import BoxBfgs.Proofs.Run.Descent
import BoxBfgs.Proofs.Run.Trace

namespace BoxBfgs

theorem Bounds.projectedGradientNorm_free {n : Nat} (x g : Vector ℝ n) :
    (Bounds.free n).projectedGradientNorm x g = Vec.maxAbs g := by
  have hgradient : (Bounds.free n).projectedGradient x g = -g := by
    refine Vec.ext_get ?_
    rw [Box.projectedGradient, Bounds.project_free, Vec.get_sub, Vec.get_sub, Vec.get_neg, sub_sub_cancel_left]
  rw [Box.projectedGradientNorm, hgradient, Vec.maxAbs_neg]

/-- Without pairs the product with the inverse changes nothing. -/
theorem Memory.inverseHessianProduct_clear {n : Nat} (m : Memory ℝ n) (v : Vector ℝ n) :
    m.clear.inverseHessianProduct v = v := by
  refine Vec.ext_get (funext fun i => ?_)
  simp [inverseHessianProduct, clear, curvatures, twoLoop, size, Vec.divide]

theorem Memory.push_clear_ne_noRoom {n depth : Nat} (h : 1 ≤ depth) (q : Pair ℝ n) :
    (empty n depth).clear.push q ≠ .noRoom := by
  have hdepth : ¬((empty n depth : Memory ℝ n).clear.size : Int) = (empty n depth : Memory ℝ n).clear.depth := by
    simp [clear, empty, size]
    omega
  have hroom : (empty n depth : Memory ℝ n).clear.size < (empty n depth : Memory ℝ n).clear.capacity := by
    simp [clear, empty, size]
    omega
  rw [push, if_neg hdepth]
  simp only [hroom, if_true]
  split_ifs <;> simp

namespace Run

variable {κ : Type} {n : Nat} {s : Setup ℝ κ n} {it it' : Iterate ℝ n} {d : Vector ℝ n} {p : Progress ℝ n} {w : World ℝ κ}

/-- What exact arithmetic spares a state of a run. -/
structure Exact (s : Setup ℝ κ n) (st : State ℝ κ n) : Prop where
  /-- The direction of a search falls, and the box leaves it room. -/
  falling : ∀ it d, st.phase = .search it d → Vec.dot it.point.g d < 0 ∧ 0 < longestStep s it.point.x d
  /-- Without pairs there is always a Cauchy point. -/
  path : ∀ it, st.phase = .cauchy it → it.memory.isEmpty = true →
    ∃ c, Cauchy.point s.bounds.toBox it.memory.keepFactor it.point.x it.point.g = .ok c
  /-- Without pairs there is always a minimum over the free coordinates. -/
  subspace : ∀ it c, st.phase = .subspace it (some c) → it.memory.isEmpty = true →
    ∃ t, Subspace.minimize s.bounds.toBox it.memory it.point.x it.point.g c = .ok t
  /-- A search that leads to a new iterate leads to a smaller value. -/
  lower : ∀ it d it', st.phase = .search it d → (step s st).phase = .check it' → it'.point.f < it.point.f
  code : ∀ m c r, st.phase = .ended m c r → r.code ≠ .approximate

theorem breakdown_ne_check {why : Obstacle ℝ} : (breakdown s it why p w).phase ≠ .check it' := by
  intro h
  rw [breakdown] at h
  split at h <;> cases h

theorem rejected_ne_check {outcome : Outcome} : (rejected s it outcome p w).phase ≠ .check it' := by
  intro h
  simp only [rejected] at h
  split at h
  · cases h
  · split at h <;> cases h

theorem accepted_check {outcome : Outcome} {t : ℝ} {new : Point ℝ n}
    (h : (accepted s it outcome t new p w).phase = .check it') :
    it'.point = new ∧ it'.previous = some it.point.f ∧ (accepted s it outcome t new p w).progress.step = t := by
  simp only [accepted] at h ⊢
  split at h
  · cases h
    exact ⟨rfl, rfl, rfl⟩
  · cases h
    exact ⟨rfl, rfl, rfl⟩
  · cases h

theorem searching_previous (h : (searching s it d p w).phase = .check it') : it'.previous = some it.point.f := by
  simp only [searching] at h
  split at h
  · exact absurd h breakdown_ne_check
  · split at h
    · exact absurd h breakdown_ne_check
    · split at h
      · cases h
      · split at h
        · cases h
        · exact absurd h rejected_ne_check
        · exact (accepted_check h).2.1

theorem Reachable.exact (hs : s.Ready) {m : Memory ℝ n} {st : State ℝ κ n} (h : Reachable s m w st) : Exact s st := by
  have hst := h.descends hs.checked
  refine ⟨fun it d hp => ?_, fun it hp he => ?_, fun it c hp he => ?_, fun it d it' hp hnext => ?_,
    fun m c r hp => ?_⟩
  · rw [hp] at hst
    cases hst with
    | search _ hd => exact ⟨hd.slope, hd.room⟩
  · have hkeep : it.memory.keepFactor = it.memory := if_pos he
    rw [hkeep]
    exact Cauchy.point_of_isEmpty he _ _
  · exact Subspace.minimize_of_isEmpty he _ _ _ c
  · have hnext' := h.step.descends hs.checked
    rw [hnext] at hnext'
    have hprev : it'.previous = some it.point.f := by
      rw [Run.step, hp] at hnext
      exact searching_previous hnext
    cases hnext' with
    | check _ _ hf => exact hf _ hprev
  · rw [hp] at hst
    cases hst with
    | ended hr => exact hr

noncomputable def firstIterate (s : Setup ℝ κ n) (m : Memory ℝ n) (f : ℝ) (g : Vector ℝ n) : Iterate ℝ n :=
  { point := { x := s.start, f, g }, previous := none, memory := m.clear }

noncomputable def firstProgress (s : Setup ℝ κ n) (f : ℝ) (g : Vector ℝ n) : Progress ℝ n :=
  { evaluator := { budget := s.options.evaluations, count := 1, best := some { x := s.start, f, g } }, step := 0 }

theorem step_initial (hbudget : s.options.evaluations.reached 0 = false)
    (hcall : ∀ w, s.objective.call (.ofVector s.start) w = (.answer (f, .ofVector g), w)) :
    ∃ w', step s (step s (initial s m w)) = ⟨.check (firstIterate s m f g), firstProgress s f g, w'⟩ := by
  have hok := Evaluator.call_of_answer (e := (initial s m w).progress.evaluator) rfl hbudget
    (hcall (step s (initial s m w)).world)
  refine ⟨(step s (initial s m w)).world, ?_⟩
  change evaluating s m.clear (initial s m w).progress (step s (initial s m w)).world = _
  rw [evaluating, hok]
  rfl

theorem checking_of_none {it : Iterate ℝ n} {p : Progress ℝ n} (hprevious : it.previous = none)
    (h : reason? s it (s.bounds.projectedGradientNorm it.point.x it.point.g) p = none) :
    checking s it p w = ⟨.cauchy it, p, w⟩ := by
  simp only [checking, hprevious, h]

theorem after_reachable (s : Setup ℝ κ n) (m : Memory ℝ n) (w : World ℝ κ) (k : Nat) :
    Reachable s m w (after s m w k) := by
  induction k with
  | zero => exact .initial
  | succ k ih =>
      rw [after_succ]
      exact ih.step

/-- A run goes on from a search that converges, without a warning, to what was found. -/
theorem searching_converged {found : Found ℝ (Point ℝ n)} {e : Evaluator (Vector ℝ n) ℝ n} {w' : World ℝ κ}
    (hd : Falling s it d) (h : sought s it d p w = (.ok found, e, w')) (ho : found.outcome = .converged)
    {new : Point ℝ n} (hnew : found.point = some new) (hfault : found.fault = none) :
    ∃ w2, searching s it d p w = accepted s it .converged found.step new
      { p with evaluator := e, outcome := some .converged } w2 := by
  have hslope : ¬(!(decide (Vec.dot it.point.g d < 0) && Scalar.isFinite (Vec.dot it.point.g d))) = true := by
    simpa using hd.slope
  rw [searching_eq, if_neg hslope, if_neg hd.room.not_ge, h]
  simp only [followed, hfault, hnew, ho]
  exact ⟨_, rfl⟩

/-- What was found becomes the next iterate, unless the memory has no room for the pair. -/
theorem exists_accepted {new : Point ℝ n} (hroom : it.memory.push ⟨new.x - it.point.x, new.g - it.point.g⟩ ≠ .noRoom)
    (t : ℝ) (p : Progress ℝ n) (w : World ℝ κ) : ∃ m' w', accepted s it .converged t new p w =
      ⟨.check { point := new, previous := some it.point.f, memory := m' },
        { p with failures := 0, step := t, iterations := p.iterations + 1 }, w'⟩ := by
  simp only [accepted, if_true]
  split
  · exact ⟨_, _, rfl⟩
  · exact ⟨_, _, rfl⟩
  · rename_i hfull
    exact absurd hfull hroom

section

variable {m : Memory ℝ n} {f : ℝ} {g : Vector ℝ n} (hiterations : s.options.iterations.reached 0 = false)
  (hfirst : s.options.evaluations.reached 0 = false) (hsecond : s.options.evaluations.reached 1 = false)
  (hcall : ∀ w, s.objective.call (.ofVector s.start) w = (.answer (f, .ofVector g), w))
  (hnorm : s.options.gTolerance < s.bounds.projectedGradientNorm s.start g)

include hiterations hfirst hsecond hcall hnorm

/-- A first gradient that counts leads to the path, with the empty memory of the start. -/
theorem after_three :
    ∃ w', after s m w 3 = ⟨.cauchy (firstIterate s m f g), firstProgress s f g, w'⟩ := by
  obtain ⟨w', hcheck⟩ := step_initial (m := m) (w := w) hfirst hcall
  have htwo : after s m w 2 = ⟨.check (firstIterate s m f g), firstProgress s f g, w'⟩ := hcheck
  have hnone : reason? s (firstIterate s m f g) (s.bounds.projectedGradientNorm s.start g) (firstProgress s f g) =
      none := by
    simp [reason?, firstIterate, firstProgress, not_le.mpr hnorm, hiterations, Evaluator.exhausted, hsecond]
  have hcauchy : step s ⟨.check (firstIterate s m f g), firstProgress s f g, w'⟩ =
      ⟨.cauchy (firstIterate s m f g), firstProgress s f g, w'⟩ := checking_of_none rfl hnone
  rw [after_succ, htwo, hcauchy]
  exact ⟨w', rfl⟩

/-- Without limits it leads to a search down the gradient. -/
theorem after_five (hu : s.bounds.unconstrained = true) :
    ∃ w', after s m w 5 = ⟨.search (firstIterate s m f g) (-g), firstProgress s f g, w'⟩ := by
  obtain ⟨w', hthree⟩ := after_three (m := m) (w := w) hiterations hfirst hsecond hcall hnorm
  have hsubspace : step s ⟨.cauchy (firstIterate s m f g), firstProgress s f g, w'⟩ =
      ⟨.subspace (firstIterate s m f g) none, firstProgress s f g, w'⟩ := if_pos hu
  have hsearch : step s ⟨.subspace (firstIterate s m f g) none, firstProgress s f g, w'⟩ =
      ⟨.search (firstIterate s m f g) (-m.clear.inverseHessianProduct g), firstProgress s f g, w'⟩ := rfl
  rw [after_succ, after_succ, hthree, hsubspace, hsearch, Memory.inverseHessianProduct_clear]
  exact ⟨w', rfl⟩

end

end Run

namespace Solver

variable {κ : Type}

noncomputable def square : Callable ℝ (World ℝ Unit) (ℝ × Tensor ℝ) := fun x w =>
  let a := x.entries.headD 0
  (.answer (a * a, .ofVector #v[a + a]), w)

noncomputable def squareProblem : Problem ℝ (World ℝ Unit) :=
  { n := 1, objective := .combined square, options := .standard, bounds := .free 1,
    start := (Bounds.free 1).project #v[1] }

noncomputable def squareSolver : Solver ℝ Unit := { id := 0, options := .standard }

/-- What a call for the square gives. -/
noncomputable def squareAt (a : ℝ) : Point ℝ 1 := { x := #v[a], f := a * a, g := #v[a + a] }

theorem square_call (a : ℝ) (w : World ℝ Unit) : (Objective.combined square).call (.ofVector (squareAt a).x) w =
    (.answer ((squareAt a).f, .ofVector (squareAt a).g), w) := by
  simp [Objective.call, square, squareAt]

theorem squareAt_norm {a : ℝ} (ha : 0 ≤ a) : Vec.maxAbs (squareAt a).g = a + a := by
  have hdouble := add_nonneg ha ha
  simp [Vec.maxAbs, squareAt, Vector.foldl, abs_of_nonneg hdouble, hdouble]

theorem squareAt_slope (a b : ℝ) : Vec.dot (squareAt b).g (-(squareAt a).g) = -((b + b) * (a + a)) := by
  rw [Vec.dot_real, Vec.get_neg]
  simp [dotProduct, squareAt, Vec.get_eq_getElem]
  ring

theorem one_le_bigStep : (1 : ℝ) ≤ Box.bigStep := by norm_num [Box.bigStep]

/-- A setup for the square from `a`, where the first search is content with the step that it tries first. -/
structure Squaring (s : Setup ℝ Unit 1) (a : ℝ) : Prop where
  objective : s.objective = .combined square
  bounds : s.bounds = .free 1
  start : s.start = (squareAt a).x
  line : s.options.line = (Options.standard : Options ℝ).line
  tolerance : s.options.gTolerance = (Options.standard : Options ℝ).gTolerance
  iterations : s.options.iterations.reached 0 = false
  evaluations : s.options.evaluations = .whole 1000
  one_le : 1 ≤ a
  le : a ≤ 10

namespace Squaring

variable {s : Setup ℝ Unit 1} {a : ℝ} (h : Squaring s a)

include h

theorem unconstrained : s.bounds.unconstrained = true := by
  simp [h.bounds, Bounds.free, Bounds.unconstrained]

theorem after_five (m : Memory ℝ 1) (w : World ℝ Unit) : ∃ w', Run.after s m w 5 =
    ⟨.search (Run.firstIterate s m (squareAt a).f (squareAt a).g) (-(squareAt a).g),
      Run.firstProgress s (squareAt a).f (squareAt a).g, w'⟩ := by
  have hfirst : s.options.evaluations.reached 0 = false := by
    rw [h.evaluations]
    rfl
  have hsecond : s.options.evaluations.reached 1 = false := by
    rw [h.evaluations]
    rfl
  apply Run.after_five h.iterations hfirst hsecond
  · intro w
    rw [h.objective, h.start]
    exact square_call a w
  · have hone := h.one_le
    rw [h.tolerance, h.bounds, Bounds.projectedGradientNorm_free, squareAt_norm (zero_le_one.trans hone)]
    norm_num [Options.standard]
    linarith
  · exact h.unconstrained

theorem longest (x d : Vector ℝ 1) : Run.longestStep s x d = Box.bigStep := if_pos h.unconstrained

theorem pos : 0 < a + a := by
  have hone := h.one_le
  linarith

theorem step_le_one : 1 / (a + a) ≤ 1 := by
  have hone := h.one_le
  rw [div_le_one h.pos]
  linarith

theorem initialStep : Run.initialStep s 0 (squareAt a).g Box.bigStep = 1 / (a + a) := by
  have hboxed : s.bounds.boxed = false := by
    simp [h.bounds, Bounds.free, Bounds.boxed]
  rw [Run.initialStep, hboxed, squareAt_norm (zero_le_one.trans h.one_le)]
  simp only [BEq.rfl, Bool.not_false, Bool.and_self, Bool.true_and, decide_eq_true_eq, if_pos h.pos, Scalar.least_real]
  rw [min_eq_right h.step_le_one, min_eq_left (h.step_le_one.trans one_le_bigStep)]

/-- The first trial goes back by one. -/
theorem trial : Run.trial s (squareAt a).x (-(squareAt a).g) (1 / (a + a)) = (squareAt (a - 1)).x := by
  have hne : a ≠ 0 := (zero_lt_one.trans_le h.one_le).ne'
  rw [Run.trial, if_pos h.unconstrained]
  refine Vec.ext_get (funext fun i => ?_)
  rw [Fin.fin_one_eq_zero i, Vec.get_add, Vec.get_scale_eq, Vec.get_neg]
  simp [squareAt, Vec.get_eq_getElem]
  field_simp
  ring

theorem tried {it : Iterate ℝ 1} (hit : it.point = squareAt a) {e : Evaluator (Vector ℝ 1) ℝ 1}
    (he : e.expected = .whole 1) (hleft : e.exhausted = false) (w : World ℝ Unit) :
    Run.tried s it (-(squareAt a).g) (1 / (a + a)) (e, w) =
      (.answered (squareAt (a - 1)) (squareAt (a - 1)).f (-((a - 1 + (a - 1)) * (a + a))),
        { e with count := e.count + 1, best := Evaluator.better e.best (squareAt (a - 1)) }, w) := by
  have hcall : s.objective.call (.ofVector (squareAt (a - 1)).x) w =
      (.answer ((squareAt (a - 1)).f, .ofVector (squareAt (a - 1)).g), w) := by
    rw [h.objective]
    exact square_call (a - 1) w
  rw [Run.tried, hit]
  dsimp only
  rw [h.trial, Evaluator.attempt, Evaluator.call_of_answer he hleft hcall, ← squareAt_slope]

theorem low : (squareAt (a - 1)).f ≤
    (squareAt a).f + 1 / (a + a) * ((Options.standard : Options ℝ).c1 * -((a + a) * (a + a))) := by
  have hone := h.one_le
  have hsmall : (Options.standard : Options ℝ).c1 ≤ 1 / 2 := by norm_num [Options.standard]
  have hstep : 1 / (a + a) * ((a + a) * (a + a)) = a + a := by
    rw [← mul_assoc, one_div_mul_cancel h.pos.ne', one_mul]
  calc (a - 1) * (a - 1) = a * a - (a + a) + 1 := by ring
    _ ≤ a * a - (Options.standard : Options ℝ).c1 * (a + a) := by nlinarith
    _ = a * a + 1 / (a + a) * ((Options.standard : Options ℝ).c1 * -((a + a) * (a + a))) := by
        rw [mul_left_comm, mul_neg, hstep]
        ring

theorem flat : |-((a - 1 + (a - 1)) * (a + a))| ≤ (Options.standard : Options ℝ).c2 * -(-((a + a) * (a + a))) := by
  have hone := h.one_le
  have hlimit := h.le
  have hback : 0 ≤ (a - 1 + (a - 1)) * (a + a) := mul_nonneg (by linarith) h.pos.le
  rw [abs_neg, abs_of_nonneg hback, neg_neg, ← mul_assoc]
  refine mul_le_mul_of_nonneg_right ?_ h.pos.le
  norm_num [Options.standard]
  linarith

/-- The search is content with its first trial. -/
theorem sought {it : Iterate ℝ 1} (hit : it.point = squareAt a) {p : Progress ℝ 1} (hiterations : p.iterations = 0)
    (he : p.evaluator.expected = .whole 1) (hleft : p.evaluator.exhausted = false) (w : World ℝ Unit) :
    Run.sought s it (-(squareAt a).g) p w =
      (.ok { step := 1 / (a + a), point := some (squareAt (a - 1)), evaluations := 1, outcome := .converged },
        { p.evaluator with count := p.evaluator.count + 1,
                           best := Evaluator.better p.evaluator.best (squareAt (a - 1)) }, w) := by
  obtain ⟨hc1, hc, hc2⟩ := (Options.standard_accepted : (Options.standard : Options ℝ).Accepted).wolfe
  rw [Run.sought, hit, hiterations, h.longest, h.initialStep, squareAt_slope, h.line]
  apply Line.search_of_first hc1 hc hc2
  · exact neg_neg_of_pos (mul_pos h.pos h.pos)
  · exact (one_div_pos.mpr h.pos).le
  · exact h.step_le_one.trans one_le_bigStep
  · exact h.tried hit he hleft w
  · exact h.low
  · exact h.flat

theorem searching {it : Iterate ℝ 1} (hit : it.point = squareAt a) (hmemory : it.memory = (Memory.empty 1 5).clear)
    {p : Progress ℝ 1} (hiterations : p.iterations = 0) (he : p.evaluator.expected = .whole 1)
    (hleft : p.evaluator.exhausted = false) (w : World ℝ Unit) : ∃ m p' w', Run.searching s it (-(squareAt a).g) p w =
      ⟨.check { point := squareAt (a - 1), previous := some (squareAt a).f, memory := m }, p', w'⟩ ∧
        p'.iterations = 1 ∧
        p'.evaluator = { p.evaluator with count := p.evaluator.count + 1,
                                          best := Evaluator.better p.evaluator.best (squareAt (a - 1)) } := by
  have hfalling : Run.Falling s it (-(squareAt a).g) := by
    constructor
    · rw [hit, squareAt_slope]
      exact neg_neg_of_pos (mul_pos h.pos h.pos)
    · rw [h.longest]
      exact zero_lt_one.trans_le one_le_bigStep
  have hroom (q : Pair ℝ 1) : it.memory.push q ≠ .noRoom := by
    rw [hmemory]
    exact Memory.push_clear_ne_noRoom (by decide) q
  obtain ⟨w1, hsearching⟩ :=
    Run.searching_converged hfalling (h.sought hit hiterations he hleft w) rfl rfl rfl
  obtain ⟨m, w2, haccepted⟩ := Run.exists_accepted (s := s) (hroom _) (1 / (a + a)) _ w1
  rw [hsearching, haccepted, hit]
  exact ⟨_, _, _, rfl, congrArg (· + 1) hiterations, rfl⟩

theorem first_point (m : Memory ℝ 1) :
    (Run.firstIterate s m (squareAt a).f (squareAt a).g).point = squareAt a := by
  rw [Run.firstIterate, h.start]

/-- After six steps the run has come to the next iterate, which is the lowest point so far. -/
theorem after_six (w : World ℝ Unit) : ∃ m p w', Run.after s (.empty 1 5) w 6 =
    ⟨.check { point := squareAt (a - 1), previous := some (squareAt a).f, memory := m }, p, w'⟩ ∧
      p.iterations = 1 ∧
      p.evaluator = { budget := .whole 1000, count := 2, best := some (squareAt (a - 1)) } := by
  obtain ⟨w', hfive⟩ := h.after_five (.empty 1 5) w
  have hleft : Evaluator.exhausted (Run.firstProgress s (squareAt a).f (squareAt a).g).evaluator = false := by
    simp only [Evaluator.exhausted, Run.firstProgress, h.evaluations]
    rfl
  obtain ⟨m, p, w1, hsearching, hone, hevaluator⟩ := h.searching (h.first_point (.empty 1 5)) rfl
    (p := Run.firstProgress s (squareAt a).f (squareAt a).g) rfl rfl hleft w'
  have hlower : (squareAt (a - 1)).f < (squareAt a).f := by
    have hge := h.one_le
    simp only [squareAt]
    nlinarith
  refine ⟨m, p, w1, ?_, hone, ?_⟩
  · rw [Run.after_succ, hfive]
    exact hsearching
  · rw [hevaluator]
    simp only [Run.firstProgress, Evaluator.better, hlower, if_pos, h.evaluations]

end Squaring

theorem squaring_square : Squaring (squareSolver.setup squareProblem) 1 where
  objective := rfl
  bounds := rfl
  start := Bounds.project_free _
  line := rfl
  tolerance := rfl
  iterations := rfl
  evaluations := rfl
  one_le := le_rfl
  le := by norm_num

/-- In exact arithmetic no minimisation ends as an approximate one: nothing but rounding leads there. -/
theorem minimize_ne_approximate (v : Solver ℝ κ) (offer : Offer ℝ (World ℝ κ)) (start : Start ℝ) {o : Options ℝ}
    (ho : o.Accepted) (w : World ℝ κ) :
    (∀ p, prepare (.ok o) offer start = .ok p →
      ∀ m w' st, Run.Reachable (v.setup p) m w' st → Run.Exact (v.setup p) st) ∧
      ∀ a, (v.minimize offer start (.ok o) w).1 = .ok a → a.status.reason.code ≠ .approximate := by
  refine ⟨fun p hp m w' st hst => hst.exact (prepare_ready v ho hp), fun a ha => ?_⟩
  rw [minimize] at ha
  split at ha
  · cases ha
  · split at ha
    · rename_i p hp
      obtain ⟨m, c, hend⟩ := solve_eq_ok ha
      exact ((Run.run_reachable _ _ _).exact (prepare_ready v ho hp)).code m c _ hend
    · simp only [reject] at ha
      split at ha
      · cases ha
      · cases ha
        exact Code.noConfusion
      · cases ha
        exact Code.noConfusion
    · cases ha

theorem minimize_ne_approximate_square : ∃ st it d,
    prepare (.ok .standard) (.function square) (.array [1] [1]) = .ok squareProblem ∧
      Run.Reachable (squareSolver.setup squareProblem) (.empty 1 5) { session := {}, client := () } st ∧
      st.phase = .search it d ∧ Vec.dot it.point.g d < 0 ∧
      0 < Run.longestStep (squareSolver.setup squareProblem) it.point.x d ∧
      ∀ a, (squareSolver.minimize (.function square) (.array [1] [1]) (.ok .standard)
        { session := {}, client := () }).1 = .ok a → a.status.reason.code ≠ .approximate := by
  have hp : prepare (.ok .standard) (.function square) (.array [1] [1]) = .ok squareProblem := rfl
  obtain ⟨hrun, hcode⟩ := minimize_ne_approximate squareSolver (.function square) (.array [1] [1])
    Options.standard_accepted { session := {}, client := () }
  obtain ⟨w', hfive⟩ := squaring_square.after_five (.empty 1 5) { session := {}, client := () }
  have hst := Run.after_reachable (squareSolver.setup squareProblem) (.empty 1 5) { session := {}, client := () } 5
  obtain ⟨hslope, hroom⟩ := (hrun _ hp _ _ _ hst).falling _ _ (congrArg State.phase hfive)
  exact ⟨_, _, _, hp, hst, congrArg State.phase hfive, hslope, hroom, hcode⟩

end Solver

end BoxBfgs
