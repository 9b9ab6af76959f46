import BoxBfgs.Proofs.Run.Best

namespace BoxBfgs

namespace Run

section

variable {α κ : Type} [Scalar α] {n : Nat} {s : Setup α κ n} {st st' : State α κ n} {it : Iterate α n}
  {c : Option (Point α n)} {r : Reason α}

theorem Ending.gradient (h : Ending s st st' c r) (hr : r.code = .convergedGradient) :
    ∃ q, c = some q ∧ s.bounds.projectedGradientNorm q.x q.g ≤ s.options.gTolerance := by
  cases h with
  | judged _ _ hreason =>
      cases hreason with
      | gradient hnorm => exact ⟨_, rfl, hnorm⟩
      | objective | rounding | iterations | evaluations => cases hr
  | unevaluated | stuck | failed | spent | lost => cases hr

theorem Ending.objective (h : Ending s st st' c r) (hr : r.code = .convergedObjective) :
    ∃ it f, st.phase = .check it ∧ Still st.progress st'.progress ∧ c = some it.point ∧ it.previous = some f ∧
      ¬s.bounds.projectedGradientNorm it.point.x it.point.g ≤ s.options.gTolerance ∧ s.options.fTolerance > 0 ∧
      relativeDecrease f it.point.f ≤ s.options.fTolerance * Scalar.epsilon := by
  cases h with
  | judged hit hp hreason =>
      cases hreason with
      | objective hnorm hprevious hpos hle => exact ⟨_, _, hit, hp, rfl, hprevious, hnorm, hpos, hle⟩
      | gradient | rounding | iterations | evaluations => cases hr
  | unevaluated | stuck | failed | spent | lost => cases hr

theorem Ending.reached (h : Ending s st st' c r) (hr : r.code = .iterationLimit) :
    s.options.iterations.reached st'.progress.iterations = true := by
  cases h with
  | judged _ _ hreason =>
      cases hreason with
      | iterations hreached => exact hreached
      | gradient | objective | rounding | evaluations => cases hr
  | unevaluated | stuck | failed | spent | lost => cases hr

/-- Both places that report the limit of the evaluations have seen it used up. -/
theorem Ending.exhausted (hs : s.objective.Quiet) (h : Ending s st st' c r) (hr : r.code = .evaluationLimit) :
    st'.progress.evaluator.exhausted = true := by
  cases h with
  | judged _ _ hreason =>
      cases hreason with
      | evaluations hout => exact hout
      | gradient | objective | rounding | iterations => cases hr
  | spent h ho =>
      obtain ⟨l, hends⟩ := sought_ends_of_ok h
      obtain ⟨t, ew, limit, ht⟩ := hends.refused_last rfl ho
      obtain ⟨hout, hsame⟩ := Evaluator.attempt_refused hs ht
      rwa [← congrArg Prod.fst hsame] at hout
  | unevaluated | stuck | failed | lost => cases hr

/-- The last two searches, where the second of them was one too many. -/
theorem Ending.lost_twice {found : List (Search α n)} (h : Ending s st st' c r) (hret : Retried st found)
    (hr : r.code = .searchFailed) : ∃ (front : List (Search α n)) (before last : Search α n),
      found ++ (search? s st).toList = front ++ [before, last] ∧ before.found.point = none ∧
      last.found.point = none ∧ before.iterations = last.iterations ∧ last.iterate.memory.isEmpty = true := by
  cases h with
  | @lost it _ fnd hit hsearch hnone hmany =>
      have hfailed : st.progress.failures ≠ 0 := by
        rw [patience] at hmany
        omega
      obtain ⟨front, before, rfl, hbefore, hsame, hempty⟩ := hret it (by rw [hit]; rfl) hfailed
      rw [hsearch]
      exact ⟨front, before, _, List.append_assoc _ _ _, hbefore, hnone, hsame, hempty⟩
  | judged _ _ hreason => cases hreason <;> cases hr
  | unevaluated | stuck | failed | spent => cases hr

/-- A failure is that of the call that was written down last. -/
theorem Ending.failed_call {st st' : State α (Watched α κ) n} (h : Ending s.watched st st' c r)
    (he : st'.progress.evaluator.expected = .whole n) (hr : r.code = .objectiveFailed) :
    ∃ front call, st'.world.calls = front ++ [call] ∧ call.point? n = none := by
  have hlast {e e' : Evaluator (Vector α n) α n} {x : Vector α n} {w w' : World α (Watched α κ)} {why : Failure}
      (hcall : e.call s.objective.watched Tensor.ofVector x w = (.error (.failure why), e', w'))
      (he' : e'.expected = .whole n) : ∃ front call, w'.calls = front ++ [call] ∧ call.point? n = none := by
    have hexpected : e'.expected = e.expected := by
      rw [← Evaluator.call_expected (e := e) (o := s.objective.watched) (x := x) (w := w), hcall]
    have hnoted : Evaluator.Noted e s.objective x w (.error (.failure why), e', w') :=
      hcall ▸ Evaluator.call_noted (hexpected.symm.trans he')
    cases hnoted with
    | made _ _ _ hw hpoint => exact ⟨_, _, hw, hpoint.symm⟩
  cases h with
  | unevaluated h => exact hlast h he
  | failed h hf hw =>
      obtain ⟨l, hends⟩ := sought_ends_of_ok h
      obtain ⟨t, ew, ht⟩ := hends.failed_last rfl hf
      rw [World.calls_of_client hw]
      exact hlast (Evaluator.attempt_eq_failed ht) he
  | judged _ _ hreason => cases hreason <;> cases hr
  | stuck | spent | lost => cases hr

section

variable {m m' : Memory α n} {w : World α κ} {k M : Nat}

theorem iterations_of_limit (hM : s.options.iterations.Is M) (hend : (after s m w k).phase = .ended m' c r)
    (hr : r.code = .iterationLimit) : (after s m w k).progress.iterations = M := by
  obtain ⟨j, hturn, -⟩ := last_turn (s := s) (m := m) (w := w) (k := k) (by rw [hend]; rfl)
  have hreached := (hturn.ending hend).reached hr
  exact ((after_paced m w hM k).iterations_le).antisymm ((hM.reached_iff _).mp hreached)

/-- The last two iterates of a run that stops for want of decrease. -/
theorem iterates_of_objective (hM : s.options.iterations.Is M) (hend : (after s m w k).phase = .ended m' c r)
    (hr : r.code = .convergedObjective) : ∃ (front : List (Iterate α n)) (before last : Iterate α n),
      iterates s m w k = front ++ [before, last] ∧ c = some last.point ∧ 1 ≤ (after s m w k).progress.iterations ∧
      ¬s.bounds.projectedGradientNorm last.point.x last.point.g ≤ s.options.gTolerance ∧ s.options.fTolerance > 0 ∧
      relativeDecrease before.point.f last.point.f ≤ s.options.fTolerance * Scalar.epsilon := by
  obtain ⟨j, hturn, hits, -⟩ := last_turn (s := s) (m := m) (w := w) (k := k) (by rw [hend]; rfl)
  obtain ⟨it, f, hit, hstill, rfl, hprevious, hnorm, hpos, hle⟩ := (hturn.ending hend).objective hr
  have hcurrent : (after s m w j).phase.current? = some it := by rw [hit]; rfl
  obtain ⟨front, last, heq, hlinked, hlast⟩ := (after_trailed m w j).current hcurrent
  rw [hlast.previous] at hprevious
  obtain ⟨front, before, rfl, rfl⟩ := hlinked.before hprevious
  have hlength := after_numbered hM m w j it hcurrent
  rw [heq, List.length_append, List.length_append, List.length_singleton, List.length_singleton] at hlength
  rw [hlast.point] at hnorm hle ⊢
  refine ⟨front, before, last, ?_, rfl, ?_, hnorm, hpos, hle⟩
  · rw [hits, heq, List.append_assoc]
    rfl
  · rw [hstill.iterations]
    omega

theorem searches_of_failures (hM : s.options.iterations.Is M) (hend : (after s m w k).phase = .ended m' c r)
    (hr : r.code = .searchFailed) : ∃ (front : List (Search α n)) (before last : Search α n),
      searches s m w k = front ++ [before, last] ∧ before.found.point = none ∧ last.found.point = none ∧
      before.iterations = last.iterations ∧ last.iterate.memory.isEmpty = true := by
  obtain ⟨j, hturn, -, hfound⟩ := last_turn (s := s) (m := m) (w := w) (k := k) (by rw [hend]; rfl)
  rw [hfound]
  exact (hturn.ending hend).lost_twice (after_retried hM m w j) hr

end

end

end Run

namespace Solver

section

variable {α κ : Type} [Scalar α] {v : Solver α κ} {p : Problem α (World α κ)} {w : World α κ} {k : Nat}

/-- Wherever a run has ended, the fuel lasts until there. -/
theorem final_eq_of_final {M : Nat} (hM : p.options.iterations.Is M) (h : (v.trace p w k).phase.final = true) :
    v.final p w = v.trace p w k := by
  obtain ⟨i, hi, hfinal⟩ := Run.exists_final (s := v.toSetup p) (.renew v.memory p.n p.options.depth)
    (w.enter v.id p.options.verbosity).1 hM
  rw [final_eq_trace, hM.rounds_eq]
  have hfuel : (v.trace p w (Run.fuel M)).phase.final = true := by
    have hstay : v.trace p w (Run.fuel M) = v.trace p w i := Run.after_of_final hfinal hi
    rw [hstay]
    exact hfinal
  rcases le_total k (Run.fuel M) with hk | hk
  · exact Run.after_of_final h hk
  · exact (Run.after_of_final hfuel hk).symm

end

variable {κ : Type} {v : Solver ℝ κ} {offer : Offer ℝ (World ℝ κ)} {start : Start ℝ}

/-- What the code of an answer vouches for, with the calls of the objective and the number of steps that were made. -/
structure Vouched (v : Solver ℝ κ) (p : Problem ℝ (World ℝ κ)) (w : World ℝ κ) (k : Nat) (calls : List (Call ℝ))
    (a : Answer ℝ) : Prop where
  gradient : a.status.reason.code = .convergedGradient → ∃ q : Point ℝ p.n,
    a = .evaluated q.x.toList q.f q.g.toList a.status ∧ p.bounds.projectedGradientNorm q.x q.g ≤ p.options.gTolerance
  objective : a.status.reason.code = .convergedObjective →
    ∃ (front : List (Iterate ℝ p.n)) (before last : Iterate ℝ p.n), v.iterates p w k = front ++ [before, last] ∧
      a = .evaluated last.point.x.toList last.point.f last.point.g.toList a.status ∧ 1 ≤ a.status.iterations ∧
      0 < p.options.fTolerance ∧ p.options.gTolerance < p.bounds.projectedGradientNorm last.point.x last.point.g ∧
      (before.point.f - last.point.f) / max (max |before.point.f| |last.point.f|) 1 ≤
        p.options.fTolerance * Scalar.epsilon
  iterations : a.status.reason.code = .iterationLimit → ∀ M, p.options.iterations.Is M → a.status.iterations = M
  evaluations : a.status.reason.code = .evaluationLimit → ∀ N, p.options.evaluations.Is N → a.status.evaluations = N
  failure : a.status.reason.code = .objectiveFailed → ∃ front call, calls = front ++ [call] ∧ call.point? p.n = none
  search : a.status.reason.code = .searchFailed →
    ∃ (front : List (Search ℝ p.n)) (before last : Search ℝ p.n), v.searches p w k = front ++ [before, last] ∧
      before.found.point = none ∧ last.found.point = none ∧ before.iterations = last.iterations ∧
      last.iterate.memory.isEmpty = true

theorem minimize_vouched {o : Options ℝ} {M : Nat} (hM : o.iterations.Is M)
    (hquiet : ∀ f, offer.adapt = .ok f → f.Quiet) {p : Problem ℝ (World ℝ κ)}
    (hp : prepare (.ok o) offer start = .ok p) {w : World ℝ κ} {a : Answer ℝ}
    (ha : (v.minimize offer start (.ok o) w).1 = .ok a) :
    ∃ k, (v.trace p w k).phase.final = true ∧ v.Vouched p w k (v.calls offer start (.ok o) w) a := by
  obtain ⟨rfl, hadapt⟩ := prepare_options hp
  obtain ⟨k, m, c, r, hend, rfl, -, hlog⟩ := minimize_answer hp ha
  have hfinal : (v.trace p w k).phase.final = true := by
    rw [hend]
    rfl
  have htallied := trace_tallied v p w k
  obtain ⟨j, hturn, -⟩ := Run.last_turn (s := v.toSetup p) hfinal
  have hending : Run.Ending (v.toSetup p) _ (v.trace p w k) c r := hturn.ending hend
  refine ⟨k, hfinal, ?_, ?_, ?_, ?_, ?_, ?_⟩ <;> rw [answer_status] <;> intro hcode
  · obtain ⟨q, rfl, hnorm⟩ := hending.gradient hcode
    refine ⟨q, ?_, hnorm⟩
    rw [chosen, hcode]
    rfl
  · obtain ⟨front, before, last, hits, rfl, hone, hnorm, hpos, hle⟩ := Run.iterates_of_objective
      (s := v.toSetup p) hM hend hcode
    refine ⟨front, before, last, hits, ?_, hone, hpos, not_le.mp hnorm, ?_⟩
    · rw [chosen, hcode]
      rfl
    · rwa [Run.relativeDecrease, Scalar.greatest_real, Scalar.greatest_real] at hle
  · intro M' hM'
    exact Run.iterations_of_limit (s := v.toSetup p) hM' hend hcode
  · intro N hN
    have hout := hending.exhausted (hquiet _ hadapt) hcode
    rw [Evaluator.exhausted, htallied.budget, hN.reached_iff] at hout
    exact (htallied.within N hN).antisymm hout
  · -- Which call was the last one is only known of the watched run, which goes the same way.
    have hphase : (v.watched.trace p.watched (w.watched []) k).phase = .ended m c r :=
      (v.phase_watched p w k).trans hend
    obtain ⟨i, hlast, -⟩ := Run.last_turn (s := (v.toSetup p).watched)
      (m := .renew v.memory p.n p.options.depth) (w := ((w.watched []).enter v.id p.options.verbosity).1) (k := k)
      (congrArg Phase.final hphase)
    rw [hlog]
    refine (hlast.ending hphase).failed_call ?_ hcode
    have hsame := congrArg (fun st => st.progress.evaluator.expected) (v.trace_watched p w k)
    exact hsame.trans htallied.expected
  · exact Run.searches_of_failures (s := v.toSetup p) hM hend hcode

noncomputable def keptOptions : Options ℝ := { Options.standard with keepHistory := .flag true }

theorem keptOptions_checked : keptOptions.Checked := { Options.standard_accepted.checked with }

noncomputable def keptProblem : Problem ℝ (World ℝ Unit) := { squareProblem with options := keptOptions }

theorem prepare_kept : prepare (.ok keptOptions) (.function square) (.array [1] [1]) = .ok keptProblem := rfl

theorem squaring_kept : Squaring (squareSolver.setup keptProblem) 1 where
  objective := rfl
  bounds := rfl
  start := Bounds.project_free _
  line := rfl
  tolerance := rfl
  iterations := rfl
  evaluations := rfl
  one_le := le_rfl
  le := by norm_num

theorem kept_norm : keptProblem.bounds.projectedGradientNorm (squareAt 0).x (squareAt 0).g ≤ keptOptions.gTolerance := by
  have hzero : (Bounds.free 1).projectedGradientNorm (squareAt 0).x (squareAt 0).g = 0 := by
    rw [Bounds.projectedGradientNorm_free, squareAt_norm le_rfl, add_zero]
  exact hzero.trans_le keptOptions_checked.gTolerance

noncomputable def keptAnswer : Answer ℝ :=
  .evaluated (squareAt 0).x.toList (squareAt 0).f (squareAt 0).g.toList
    { iterations := 1, evaluations := 2,
      reason := .gradient (keptProblem.bounds.projectedGradientNorm (squareAt 0).x (squareAt 0).g)
        keptOptions.gTolerance }

/-- The codes of the answers are sound, and the first iterate whose gradient has vanished is the last one, whatever the
caps are: a run that comes to it returns it, unless the callback throws. -/
theorem minimize_codes (v : Solver ℝ κ) {o : Options ℝ} (ho : o.Checked) {M : Nat} (hM : o.iterations.Is M)
    (hquiet : ∀ f, offer.adapt = .ok f → f.Quiet) {p : Problem ℝ (World ℝ κ)}
    (hp : prepare (.ok o) offer start = .ok p) (w : World ℝ κ) :
    (∀ a, (v.minimize offer start (.ok o) w).1 = .ok a →
      ∃ k, (v.trace p w k).phase.final = true ∧ v.Vouched p w k (v.calls offer start (.ok o) w) a) ∧
    ∀ k it, (v.trace p w k).phase = .check it →
      p.bounds.projectedGradientNorm it.point.x it.point.g ≤ o.gTolerance →
      (v.trace p w (k + 1)).phase.final = true ∧
        (w.isRunning v.id = false →
          (v.minimize offer start (.ok o) w).1 = .ok (.evaluated it.point.x.toList it.point.f it.point.g.toList
            { reason := .gradient (p.bounds.projectedGradientNorm it.point.x it.point.g) o.gTolerance,
              iterations := (v.trace p w k).progress.iterations,
              evaluations := (v.trace p w k).progress.evaluator.count }) ∨
          ∃ f r w' why, v.callback = some f ∧ (f r w').1 = .error why ∧
            (v.minimize offer start (.ok o) w).1 = .error why) := by
  refine ⟨fun a ha => minimize_vouched hM hquiet hp ha, fun k it hcheck hnorm => ?_⟩
  have hs := prepare_checked v ho hp
  obtain ⟨rfl, -⟩ := prepare_options hp
  have hroom : (Memory.renew v.memory p.n p.options.depth).Roomy := Memory.renew_roomy _ _ ho.depth.1
  have hnext : v.trace p w (k + 1) =
      Run.checking (v.toSetup p) it (v.trace p w k).progress (v.trace p w k).world := by
    rw [trace, Run.after_succ, Run.step]
    simp only [trace] at hcheck
    rw [hcheck]
    rfl
  -- The fuel lasts until the run has ended, so that the answer is made of the state after this step.
  have hanswer (hrun : w.isRunning v.id = false) (hfinal : (v.trace p w (k + 1)).phase.final = true) :
      (v.minimize offer start (.ok p.options) w).1 =
        (v.closed p (w.enter v.id p.options.verbosity).2 (v.trace p w (k + 1))).1 := by
    rw [minimize_of_prepare hrun hp, solve_eq, final_eq_of_final hM hfinal]
  rcases Run.checking_stops (s := v.toSetup p) (p := (v.trace p w k).progress) (w := (v.trace p w k).world)
    (Run.inspect_after hs hroom hcheck) (if_pos hnorm) with ⟨p', w', hstill, hstop⟩ | ⟨f, r, w1, why, p', w', hf, hwhy, hstop⟩
  · have hfinal : (v.trace p w (k + 1)).phase.final = true := by
      rw [hnext, hstop]
      rfl
    refine ⟨hfinal, fun hrun => .inl ?_⟩
    rw [hanswer hrun hfinal, hnext, hstop, ← hstill.iterations, ← hstill.evaluator]
    rfl
  · have hfinal : (v.trace p w (k + 1)).phase.final = true := by
      rw [hnext, hstop]
      rfl
    refine ⟨hfinal, fun hrun => .inr ⟨f, r, w1, why, hf, hwhy, ?_⟩⟩
    rw [hanswer hrun hfinal, hnext, hstop]
    rfl

theorem minimize_codes_kept : keptOptions.Checked ∧ (Cap.whole 100).Is 100 ∧
    (∀ f, Offer.adapt (.function square) = .ok f → f.Quiet) ∧
    prepare (.ok keptOptions) (.function square) (.array [1] [1]) = .ok keptProblem ∧
    (squareSolver.minimize (.function square) (.array [1] [1]) (.ok keptOptions) { session := {}, client := () }).1 =
      .ok keptAnswer ∧
    ∃ k, (squareSolver.trace keptProblem { session := {}, client := () } k).phase.final = true ∧
      squareSolver.Vouched keptProblem { session := {}, client := () } k
        (squareSolver.calls (.function square) (.array [1] [1]) (.ok keptOptions) { session := {}, client := () })
        keptAnswer := by
  have hM : (Cap.whole 100).Is 100 := .whole 100
  obtain ⟨hcodes, hstops⟩ := minimize_codes squareSolver keptOptions_checked hM square_quiet prepare_kept
    { session := {}, client := () }
  obtain ⟨m, p, w', hsix, hone, hevaluator⟩ := squaring_kept.after_six
    (World.enter { session := {}, client := () } 0 .silent).1
  rw [sub_self] at hsix hevaluator
  have htrace : squareSolver.trace keptProblem { session := {}, client := () } 6 = _ := hsix
  obtain ⟨-, hanswer⟩ := hstops 6 _ (congrArg State.phase htrace) kept_norm
  rcases hanswer rfl with hok | ⟨f, -, -, -, hf, -⟩
  · rw [htrace] at hok
    dsimp only at hok
    rw [hone, hevaluator] at hok
    exact ⟨keptOptions_checked, hM, square_quiet, prepare_kept, hok, hcodes keptAnswer hok⟩
  · cases hf

end Solver

end BoxBfgs
