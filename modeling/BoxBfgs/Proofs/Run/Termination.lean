import BoxBfgs.Proofs.Run.Tally

namespace BoxBfgs

namespace Run

variable {α κ : Type} [Scalar α] {n : Nat} {s : Setup α κ n} {it it' : Iterate α n} {p p' : Progress α n}
  {w w' : World α κ} {M E : Nat}

/-- What the counts of a run of at most `M` iterations can be. -/
def Paced (M : Nat) (st : State α κ n) : Prop :=
  match st.phase with
  | .start _ | .evaluating _ => st.progress.iterations = 0 ∧ st.progress.failures = 0
  | .check _ => st.progress.iterations ≤ M ∧ st.progress.failures = 0
  | .cauchy _ | .subspace _ _ | .search _ _ => st.progress.iterations < M ∧ st.progress.failures < patience
  | .ended _ _ _ | .escaped _ _ => st.progress.iterations ≤ M

omit [Scalar α] in
theorem Paced.iterations_le {st : State α κ n} (h : Paced M st) : st.progress.iterations ≤ M := by
  obtain ⟨phase, p, w⟩ := st
  cases phase with
  | start | evaluating =>
      have hzero : p.iterations = 0 ∧ p.failures = 0 := h
      exact hzero.1.trans_le (Nat.zero_le M)
  | check =>
      have hle : p.iterations ≤ M ∧ p.failures = 0 := h
      exact hle.1
  | cauchy | subspace | search =>
      have hlt : p.iterations < M ∧ p.failures < patience := h
      exact hlt.1.le
  | ended | escaped => exact h

theorem Turning.paced {ph : Phase α n} (ht : Turning s ph it) :
    Paced M (⟨ph, p, w⟩ : State α κ n) ↔ p.iterations < M ∧ p.failures < patience := by
  cases ht <;> rfl

theorem Turn.paced (hM : s.options.iterations.Is M) {st st' : State α κ n} (h : Turn s st st') (hp : Paced M st) :
    Paced M st' := by
  cases h with
  | start | along | toward => exact hp
  | first =>
      have hzero : _ = 0 ∧ _ = 0 := hp
      exact ⟨hzero.1.trans_le (Nat.zero_le M), hzero.2⟩
  | firstFailed | firstEscaped =>
      have hzero : _ = 0 ∧ _ = 0 := hp
      exact hzero.1.trans_le (Nat.zero_le M)
  | decided hstill | unshown hstill =>
      have hle : _ ≤ M ∧ _ = 0 := hp
      exact hstill.iterations.trans_le hle.1
  | undecided hstill _ hr =>
      have hle : _ ≤ M ∧ _ = 0 := hp
      have hmore := (reason?_none hr).1
      rw [← Bool.not_eq_true, hM.reached_iff, not_le] at hmore
      exact ⟨hmore, (hstill.failures.trans hle.2).trans_lt (by decide)⟩
  | reset ht hstill =>
      have hlt := ht.paced.mp hp
      exact ⟨hstill.iterations.trans_lt hlt.1, hstill.failures.trans_lt hlt.2⟩
  | stuck ht | misfit ht => exact (ht.paced.mp hp).1.le
  | thrown =>
      have hlt : _ < M ∧ _ < patience := hp
      exact hlt.1.le
  | failed _ _ _ hstill | spent _ _ _ _ hstill | lost _ _ _ hstill | overfull _ _ hstill =>
      have hlt : _ < M ∧ _ < patience := hp
      exact (hstill.iterations.trans_lt hlt.1).le
  | again _ _ _ hstill hfew =>
      have hlt : _ < M ∧ _ < patience := hp
      exact ⟨hstill.iterations.trans_lt hlt.1, hstill.failures.trans_lt hfew⟩
  | accepted _ _ _ hstill =>
      have hlt : _ < M ∧ _ < patience := hp
      exact ⟨hstill.iterations.trans_le hlt.1, hstill.failures⟩

/-- The searches that may still be made before the next iterate. -/
def searchesLeft (st : State α κ n) : Nat :=
  match st.phase with
  | .cauchy _ | .subspace _ _ | .search _ _ => patience - st.progress.failures
  | _ => 0

/-- The paths that may still be followed before the next iterate: one here, one without the memory, and one after a
search that failed. -/
def pathsLeft (st : State α κ n) : Nat :=
  match st.phase with
  | .cauchy it => (!it.memory.isEmpty).toNat + (patience - st.progress.failures)
  | .subspace it _ | .search it _ => (!it.memory.isEmpty).toNat + (patience - st.progress.failures) - 1
  | _ => 0

/-- The steps that may still be made. -/
def stepsLeft (M : Nat) (st : State α κ n) : Nat :=
  match st.phase with
  | .start _ => 10 * M + 3
  | .evaluating _ => 10 * M + 2
  | .check _ => 10 * (M - st.progress.iterations) + 1
  | .cauchy _ => 10 * (M - (st.progress.iterations + 1)) + 3 * pathsLeft st + 1
  | .subspace _ _ => 10 * (M - (st.progress.iterations + 1)) + 3 * pathsLeft st + 3
  | .search _ _ => 10 * (M - (st.progress.iterations + 1)) + 3 * pathsLeft st + 2
  | .ended _ _ _ | .escaped _ _ => 0

theorem Turn.stepsLeft_lt (hM : s.options.iterations.Is M) {st st' : State α κ n} (h : Turn s st st') (hp : Paced M st) :
    stepsLeft M st' < stepsLeft M st := by
  have hp' := h.paced hM hp
  cases h with
  | start | firstFailed | firstEscaped | decided | unshown | thrown | failed | spent | lost | overfull =>
      simp [stepsLeft]
  | first =>
      simp only [stepsLeft]
      omega
  | @undecided it p p' _ _ hstill =>
      have hmore : p'.iterations < M ∧ p'.failures < patience := hp'
      have hpair := (!it.memory.isEmpty).toNat_le
      have hiterations := hstill.iterations
      simp only [stepsLeft, pathsLeft, patience] at hmore ⊢
      omega
  | @along _ _ _ p _ _ _ _ hm =>
      have hfew : p.iterations < M ∧ p.failures < patience := hp
      simp only [stepsLeft, pathsLeft, patience, hm] at hfew ⊢
      omega
  | toward => simp [stepsLeft, pathsLeft]
  | reset ht hstill _ _ hm hm' =>
      have hfew := ht.paced.mp hp
      have hiterations := hstill.iterations
      have hfailures := hstill.failures
      cases ht <;> simp only [stepsLeft, pathsLeft, patience, hm, hm', Bool.not_true, Bool.not_false, Bool.toNat_true,
        Bool.toNat_false] at hfew ⊢ <;> omega
  | stuck ht | misfit ht => cases ht <;> simp [stepsLeft]
  | @again _ _ _ p p' _ _ _ _ _ _ _ _ hstill hfew _ _ hm' =>
      have hiterations : p'.iterations = p.iterations := hstill.iterations
      have hfailures : p'.failures = p.failures + 1 := hstill.failures
      simp only [stepsLeft, pathsLeft, patience, hm', Bool.not_true, Bool.toNat_false] at hfew ⊢
      omega
  | @accepted _ _ _ p p' _ _ _ _ _ _ _ _ _ hstill =>
      have hiterations : p'.iterations = p.iterations + 1 := hstill.iterations
      simp only [stepsLeft]
      omega

def follows (st : State α κ n) : Bool :=
  match st.phase with
  | .cauchy _ => true
  | _ => false

omit [Scalar α] in
theorem follows_of_final {st : State α κ n} (h : st.phase.final = true) : follows st = false := by
  obtain ⟨phase, p, w⟩ := st
  cases phase with
  | cauchy => cases h
  | start | evaluating | check | subspace | search | ended | escaped => rfl

theorem Turn.pathsLeft_le {st st' : State α κ n} (h : Turn s st st') (hp : Paced M st) :
    (st.phase.iterate? ≠ none → pathsLeft st' ≤ 3) ∧
      (st.phase.iterate? = none → pathsLeft st' + (follows st).toNat ≤ pathsLeft st) := by
  constructor
  · intro hcheck
    cases h with
    | @undecided it _ p' _ _ _ =>
        have hpair := (!it.memory.isEmpty).toNat_le
        simp only [pathsLeft, patience]
        omega
    | decided | unshown => exact Nat.zero_le _
    | reset ht | stuck ht | misfit ht => cases ht <;> cases hcheck rfl
    | start | first | firstFailed | firstEscaped | along | toward | thrown | failed | spent | lost | again | accepted
    | overfull => cases hcheck rfl
  · intro hcheck
    cases h with
    | undecided => cases hcheck
    | decided | unshown | start | first | firstFailed | firstEscaped | thrown | failed | spent | lost | accepted
    | overfull => exact Nat.zero_le _
    | @along _ _ _ p _ _ _ _ hm =>
        have hfew : p.iterations < M ∧ p.failures < patience := hp
        simp only [pathsLeft, follows, patience, hm, Bool.toNat_true] at hfew ⊢
        omega
    | toward => exact le_rfl
    | reset ht hstill _ _ hm hm' =>
        have hfew := ht.paced.mp hp
        have hfailures := hstill.failures
        cases ht <;> simp only [pathsLeft, follows, patience, hm, hm', Bool.not_true, Bool.not_false, Bool.toNat_true,
          Bool.toNat_false] at hfew ⊢ <;> omega
    | stuck ht | misfit ht =>
        have hfew := ht.paced.mp hp
        cases ht <;> simp only [pathsLeft, follows, patience, Bool.toNat_true, Bool.toNat_false] at hfew ⊢ <;> omega
    | @again _ _ _ p p' _ _ _ _ _ _ _ _ hstill hfew _ _ hm' =>
        have hfailures : p'.failures = p.failures + 1 := hstill.failures
        simp only [pathsLeft, follows, patience, hm', Bool.not_true, Bool.toNat_false] at hfew ⊢
        omega

theorem seeks_of_turning {ph : Phase α n} (ht : Turning s ph it) : seeks s ⟨ph, p, w⟩ = false := by
  cases ht with
  | cauchy | subspace => rfl
  | search hd => exact hd

theorem Turn.searchesLeft_le {st st' : State α κ n} (h : Turn s st st') (hp : Paced M st) :
    (st.phase.iterate? ≠ none → searchesLeft st' ≤ 2) ∧
      (st.phase.iterate? = none → searchesLeft st' + (seeks s st).toNat ≤ searchesLeft st) := by
  have hone : (seeks s st).toNat ≤ 1 := Bool.toNat_le _
  constructor
  · intro hcheck
    cases h with
    | undecided => exact Nat.sub_le _ _
    | decided | unshown => exact Nat.zero_le _
    | reset ht | stuck ht | misfit ht => cases ht <;> cases hcheck rfl
    | start | first | firstFailed | firstEscaped | along | toward | thrown | failed | spent | lost | again | accepted
    | overfull => cases hcheck rfl
  · intro hcheck
    cases h with
    | undecided => cases hcheck
    | decided | unshown | start | first | firstFailed | firstEscaped => exact Nat.zero_le _
    | along | toward => exact le_rfl
    | reset ht hstill =>
        rw [seeks_of_turning ht]
        have hfailures := hstill.failures
        cases ht <;> simp only [searchesLeft, Bool.toNat_false] <;> omega
    | stuck ht | misfit ht =>
        rw [seeks_of_turning ht]
        exact Nat.zero_le _
    | @thrown _ _ p | @failed _ _ p | @spent _ _ p | @lost _ _ p | @accepted _ _ _ p | @overfull _ _ p =>
        have hfew : p.iterations < M ∧ p.failures < patience := hp
        simp only [searchesLeft, patience] at hfew ⊢
        omega
    | @again _ _ _ p p' _ _ _ _ _ _ _ _ hstill hfew =>
        have hfailures : p'.failures = p.failures + 1 := hstill.failures
        simp only [searchesLeft, patience] at hfew ⊢
        omega

/-- The searches that may still be made in a run. -/
def allSearchesLeft (M : Nat) (st : State α κ n) : Nat :=
  match st.phase with
  | .start _ | .evaluating _ => 2 * M
  | .check _ => 2 * (M - st.progress.iterations)
  | .cauchy _ | .subspace _ _ | .search _ _ => 2 * (M - (st.progress.iterations + 1)) + searchesLeft st
  | .ended _ _ _ | .escaped _ _ => 0

theorem Turn.allSearchesLeft_le (hM : s.options.iterations.Is M) {st st' : State α κ n} (h : Turn s st st')
    (hp : Paced M st) : allSearchesLeft M st' + (seeks s st).toNat ≤ allSearchesLeft M st := by
  have hp' := h.paced hM hp
  have hone : (seeks s st).toNat ≤ 1 := Bool.toNat_le _
  cases h with
  | start => exact le_rfl
  | first => exact Nat.mul_le_mul_left 2 (Nat.sub_le _ _)
  | decided | unshown | firstFailed | firstEscaped => exact Nat.zero_le _
  | @undecided _ _ p' _ _ hstill =>
      have hmore : p'.iterations < M ∧ p'.failures < patience := hp'
      have hiterations := hstill.iterations
      simp only [allSearchesLeft, searchesLeft, patience, seeks, Bool.toNat_false] at hmore ⊢
      omega
  | along | toward => exact le_rfl
  | reset ht hstill =>
      rw [seeks_of_turning ht]
      have hiterations := hstill.iterations
      have hfailures := hstill.failures
      cases ht <;> simp only [allSearchesLeft, searchesLeft, Bool.toNat_false] <;> omega
  | stuck ht | misfit ht =>
      rw [seeks_of_turning ht]
      exact Nat.zero_le _
  | @thrown _ _ p | @failed _ _ p | @spent _ _ p | @lost _ _ p | @overfull _ _ p =>
      have hfew : p.iterations < M ∧ p.failures < patience := hp
      simp only [allSearchesLeft, searchesLeft, patience] at hfew ⊢
      omega
  | @again _ _ _ p p' _ _ _ _ _ _ _ _ hstill hfew =>
      have hiterations : p'.iterations = p.iterations := hstill.iterations
      have hfailures : p'.failures = p.failures + 1 := hstill.failures
      simp only [allSearchesLeft, searchesLeft, patience] at hfew ⊢
      omega
  | @accepted _ _ _ p p' _ _ _ _ _ _ _ _ _ hstill =>
      have hfew : p.iterations < M ∧ p.failures < patience := hp
      have hiterations : p'.iterations = p.iterations + 1 := hstill.iterations
      simp only [allSearchesLeft, searchesLeft, patience] at hfew ⊢
      omega

theorem sought_count_le (hE : s.options.searchEvaluations.Is E) (hpos : 1 ≤ E) (d : Vector α n) :
    (sought s it d p w).2.1.count ≤ p.evaluator.count + E := by
  rcases sought_ends s it d p w with ⟨why, hunmet⟩ | ⟨l, hends⟩
  · rw [hunmet]
    exact Nat.le_add_right _ _
  · have hle := hends.le_add (c := fun ew : Evaluator (Vector α n) α n × World α κ => ew.1.count)
      fun {t ew a ew'} ht => by
        have hcall : (tried s it d t ew).2.1.count ≤ ew.1.count + 1 := by
          rw [tried, Evaluator.attempt_snd]
          exact Evaluator.call_count_le
        rwa [ht] at hcall
    rwa [hE.rounds_eq, max_eq_right hpos] at hle

/-- A step counts one evaluation at the start, and those of a search. -/
theorem Turn.count_le (hE : s.options.searchEvaluations.Is E) (hpos : 1 ≤ E) {st st' : State α κ n} (h : Turn s st st') :
    st'.progress.evaluator.count + st.phase.begun.toNat ≤
      st.progress.evaluator.count + st'.phase.begun.toNat + (seeks s st).toNat * E := by
  have hsame {p p' : Progress α n} {c : Nat} (h : p'.evaluator = p.evaluator) :
      p'.evaluator.count + 1 ≤ p.evaluator.count + 1 + c := by
    rw [h]
    exact Nat.le_add_right _ _
  have hfirst {p : Progress α n} {w w' : World α κ} {e : Evaluator (Vector α n) α n} {r : Except (Fault α) (Point α n)}
      {c : Nat} (h : p.evaluator.call s.objective Tensor.ofVector s.start w = (r, e, w')) :
      e.count + 0 ≤ p.evaluator.count + 1 + c := by
    have hle : (p.evaluator.call s.objective Tensor.ofVector s.start w).2.1.count ≤ p.evaluator.count + 1 :=
      Evaluator.call_count_le
    rw [h] at hle
    exact hle.trans (Nat.le_add_right _ _)
  have hsearch {it : Iterate α n} {d : Vector α n} {p p' : Progress α n} {w w1 : World α κ}
      {e : Evaluator (Vector α n) α n} {r : Except (Fault α) (Found α (Point α n))} (hd : falls s it d = true)
      (h : sought s it d p w = (r, e, w1)) (hp : p'.evaluator = e) :
      p'.evaluator.count + 1 ≤ p.evaluator.count + 1 + (seeks s ⟨.search it d, p, w⟩).toNat * E := by
    have hle : (sought s it d p w).2.1.count ≤ p.evaluator.count + E := sought_count_le hE hpos d
    have hseeks : seeks s ⟨.search it d, p, w⟩ = true := hd
    rw [h] at hle
    rw [hseeks, hp, Bool.toNat_true, one_mul, Nat.add_right_comm]
    exact Nat.succ_le_succ hle
  cases h with
  | start => exact Nat.le_add_right _ _
  | first h | firstFailed h | firstEscaped h => exact hfirst h
  | decided hp | undecided hp | unshown hp => exact hsame hp.evaluator
  | along | toward => exact hsame rfl
  | reset ht hp =>
      rw [ht.begun.1]
      exact hsame hp.evaluator
  | stuck ht | misfit ht =>
      rw [ht.begun.1]
      exact hsame rfl
  | thrown hd h => exact hsearch hd h rfl
  | failed hd h _ hp => exact hsearch hd h hp.evaluator
  | spent hd h _ _ hp => exact hsearch hd h hp.evaluator
  | lost hd h _ hp => exact hsearch hd h hp.evaluator
  | again hd h _ hp => exact hsearch hd h hp.evaluator
  | accepted hd h _ hp => exact hsearch hd h hp.evaluator
  | overfull hd h hp => exact hsearch hd h hp.evaluator

section

variable (m : Memory α n) (w : World α κ)

theorem after_paced (hM : s.options.iterations.Is M) (k : Nat) : Paced M (after s m w k) :=
  after_invariant (P := Paced M) ⟨rfl, rfl⟩ (fun h => h.paced hM) k

theorem exists_final (hM : s.options.iterations.Is M) : ∃ k ≤ 10 * M + 3, (after s m w k).phase.final = true := by
  -- As long as a run has not ended, each of its steps is one of those that were left to it.
  have hdown (k : Nat) : (∃ j ≤ k, (after s m w j).phase.final = true) ∨ stepsLeft M (after s m w k) + k ≤ 10 * M + 3 := by
    induction k with
    | zero => exact .inr le_rfl
    | succ k ih =>
        rcases ih with ⟨j, hj, hfinal⟩ | hle
        · exact .inl ⟨j, hj.trans (Nat.le_succ k), hfinal⟩
        · cases hfinal : (after s m w k).phase.final with
          | true => exact .inl ⟨k, Nat.le_succ k, hfinal⟩
          | false =>
              have hlt := (step_turn _ hfinal).stepsLeft_lt hM (after_paced m w hM k)
              rw [← after_succ] at hlt
              exact .inr (by omega)
  rcases hdown (10 * M + 3) with h | hle
  · exact h
  · refine ⟨10 * M + 3, le_rfl, ?_⟩
    have hzero : stepsLeft M (after s m w (10 * M + 3)) = 0 := by omega
    generalize after s m w (10 * M + 3) = st at hzero
    obtain ⟨phase, p, w⟩ := st
    cases phase with
    | ended | escaped => rfl
    | start | evaluating | check | cauchy | subspace | search => simp [stepsLeft] at hzero

/-- Between two iterates a run makes no more visits than it can pay for. -/
theorem card_visits_le (hM : s.options.iterations.Is M) {visit : State α κ n → Bool} {left : State α κ n → Nat} {c : Nat}
    (hleft : ∀ {st st'}, Turn s st st' → Paced M st → (st.phase.iterate? ≠ none → left st' ≤ c) ∧
      (st.phase.iterate? = none → left st' + (visit st).toNat ≤ left st))
    (hfinal : ∀ st : State α κ n, st.phase.final = true → visit st = false) {i j : Nat} (hij : i < j)
    (hi : (after s m w i).phase.iterate? ≠ none)
    (hnone : ∀ k, i < k → k < j → (after s m w k).phase.iterate? = none) :
    ((Finset.Ioo i j).filter fun k => visit (after s m w k) = true).card + left (after s m w j) ≤ c := by
  -- From one step to the next a visit is paid for with what is left, which no other step adds to.
  induction j, hij using Nat.le_induction with
  | base =>
      have hgo : (after s m w i).phase.final = false := by
        rw [← Bool.not_eq_true]
        exact fun h => hi (Phase.iterate?_of_final h)
      have hempty : Finset.Ioo i (i + 1) = ∅ := by
        ext k
        simp only [Finset.mem_Ioo, Finset.notMem_empty, iff_false]
        omega
      have hstart := (hleft (step_turn _ hgo) (after_paced m w hM i)).1 hi
      rw [hempty, Finset.filter_empty, Finset.card_empty, Nat.zero_add, after_succ]
      exact hstart
  | succ j hij ih =>
      have hbefore := ih fun k hik hkj => hnone k hik (hkj.trans (Nat.lt_succ_self j))
      have hinsert : Finset.Ioo i (j + 1) = insert j (Finset.Ioo i j) := by
        ext k
        simp only [Finset.mem_Ioo, Finset.mem_insert]
        omega
      have hcard : ((Finset.Ioo i (j + 1)).filter fun k => visit (after s m w k) = true).card =
          ((Finset.Ioo i j).filter fun k => visit (after s m w k) = true).card + (visit (after s m w j)).toNat := by
        rw [hinsert, Finset.filter_insert]
        cases hvisit : visit (after s m w j) with
        | true => simp
        | false => simp
      rw [hcard, after_succ]
      cases hend : (after s m w j).phase.final with
      | true =>
          rw [hfinal _ hend, step_of_final hend]
          exact hbefore
      | false =>
          have hpay := (hleft (step_turn _ hend) (after_paced m w hM j)).2 (hnone j hij (Nat.lt_succ_self j))
          omega

/-- A run makes the first evaluation, and those of the searches that are left to it. -/
theorem after_count_le (hM : s.options.iterations.Is M) (hE : s.options.searchEvaluations.Is E) (hpos : 1 ≤ E) (k : Nat) :
    (after s m w k).progress.evaluator.count ≤ 1 + 2 * M * E := by
  have hleft : Paced M (after s m w k) ∧ (after s m w k).progress.evaluator.count +
      allSearchesLeft M (after s m w k) * E ≤ (after s m w k).phase.begun.toNat + 2 * M * E := by
    refine after_invariant (P := fun st : State α κ n => Paced M st ∧
      st.progress.evaluator.count + allSearchesLeft M st * E ≤ st.phase.begun.toNat + 2 * M * E) ⟨⟨rfl, rfl⟩, ?_⟩
      (fun {st st'} h hP => ⟨h.paced hM hP.1, ?_⟩) k
    · exact le_rfl
    · have hcount := h.count_le hE hpos
      have hsearches := Nat.mul_le_mul_right E (h.allSearchesLeft_le hM hP.1)
      rw [Nat.add_mul] at hsearches
      have hbefore := hP.2
      omega
  have hone : (after s m w k).phase.begun.toNat ≤ 1 := Bool.toNat_le _
  have hall := hleft.2
  omega

end

end Run

namespace Solver

variable {α κ : Type} [Scalar α]

theorem calls_length_le (v : Solver α κ) (offer : Offer α (World α κ)) (start : Start α) {o : Options α} {M E : Nat}
    (hM : o.iterations.Is M) (hE : o.searchEvaluations.Is E) (hpos : 1 ≤ E) (w : World α κ) :
    (v.calls offer start (.ok o) w).length ≤ 1 + 2 * M * E := by
  cases hrun : w.isRunning v.id with
  | true =>
      rw [calls_of_running hrun]
      exact Nat.zero_le _
  | false =>
      cases hp : prepare (.ok o) offer start with
      | error why =>
          rw [calls_of_error why hp]
          exact Nat.zero_le _
      | ok p =>
          obtain ⟨rfl, -⟩ := prepare_options hp
          rw [calls_of_prepare hrun hp, ← (trace_tallied v p w _).count]
          exact Run.after_count_le (s := v.toSetup p) _ _ hM hE hpos _

/-- A run ends. Between two iterates it follows three paths and makes two searches at most, so that a cap on its
iterations and one on the evaluations of a search bound its steps and its calls of the objective. -/
theorem minimize_terminates (v : Solver α κ) (offer : Offer α (World α κ)) (start : Start α) {o : Options α} {M E : Nat}
    (hM : o.iterations.Is M) (hE : o.searchEvaluations.Is E) (hpos : 1 ≤ E) (w : World α κ) :
    (∀ p, prepare (.ok o) offer start = .ok p →
      (∃ k ≤ 10 * M + 3, (v.trace p w k).phase.final = true ∧ v.final p w = v.trace p w k) ∧
      (∀ i j, i < j → (v.trace p w i).phase.iterate? ≠ none →
        (∀ k, i < k → k < j → (v.trace p w k).phase.iterate? = none) →
        ((Finset.Ioo i j).filter fun k => Run.follows (v.trace p w k) = true).card ≤ 3 ∧
          ((Finset.Ioo i j).filter fun k => Run.seeks (v.toSetup p) (v.trace p w k) = true).card ≤ 2) ∧
      ∀ k, (v.trace p w k).progress.iterations ≤ M) ∧
    (∀ a, (v.minimize offer start (.ok o) w).1 = .ok a → a.status.iterations ≤ M) ∧
    (v.calls offer start (.ok o) w).length ≤ 1 + 2 * M * E := by
  have hpaced {p : Problem α (World α κ)} (hp : prepare (.ok o) offer start = .ok p) (k : Nat) :
      Run.Paced M (v.trace p w k) := by
    obtain ⟨rfl, -⟩ := prepare_options hp
    exact Run.after_paced (s := v.toSetup p) _ _ hM k
  refine ⟨fun p hp => ⟨?_, fun i j hij hi hnone => ⟨?_, ?_⟩, fun k => (hpaced hp k).iterations_le⟩, fun a ha => ?_, ?_⟩
  · obtain ⟨rfl, -⟩ := prepare_options hp
    obtain ⟨k, hk, hfinal⟩ := Run.exists_final (s := v.toSetup p) (.renew v.memory p.n p.options.depth)
      (w.enter v.id p.options.verbosity).1 hM
    refine ⟨k, hk, hfinal, ?_⟩
    rw [final_eq_trace, hM.rounds_eq]
    exact Run.after_of_final hfinal hk
  · obtain ⟨rfl, -⟩ := prepare_options hp
    have hcard := Run.card_visits_le (s := v.toSetup p) _ _ hM (fun h hp => h.pathsLeft_le hp)
      (fun _ => Run.follows_of_final) hij hi hnone
    exact (Nat.le_add_right _ _).trans hcard
  · obtain ⟨rfl, -⟩ := prepare_options hp
    have hcard := Run.card_visits_le (s := v.toSetup p) _ _ hM (fun h hp => h.searchesLeft_le hp)
      (fun _ => Run.seeks_of_final) hij hi hnone
    exact (Nat.le_add_right _ _).trans hcard
  · cases hp : prepare (.ok o) offer start with
    | ok p =>
        obtain ⟨k, m, c, r, -, rfl, -, -⟩ := minimize_answer hp ha
        rw [answer_status]
        exact (hpaced hp k).iterations_le
    | error why =>
        obtain ⟨echo, why', rfl⟩ := rejected_of_error hp ha
        exact Nat.zero_le M
  · exact calls_length_le v offer start hM hE hpos w

theorem minimize_terminates_square : (Cap.whole 100).Is 100 ∧ (Cap.whole 20).Is 20 ∧
    prepare (.ok .standard) (.function square) (.array [1] [1]) = .ok squareProblem ∧
    (∃ k ≤ 1003, (squareSolver.trace squareProblem { session := {}, client := () } k).phase.final = true) ∧
    (squareSolver.calls (.function square) (.array [1] [1]) (.ok .standard)
      { session := {}, client := () }).length ≤ 4001 := by
  have hM : (Cap.whole 100).Is 100 := .whole 100
  have hE : (Cap.whole 20).Is 20 := .whole 20
  have hp : prepare (.ok .standard) (.function square) (.array [1] [1]) = .ok squareProblem := rfl
  obtain ⟨hrun, -, hcalls⟩ := minimize_terminates squareSolver (.function square) (.array [1] [1]) (o := .standard) hM hE
    (by decide) { session := {}, client := () }
  obtain ⟨⟨k, hk, hfinal, -⟩, -, -⟩ := hrun _ hp
  exact ⟨hM, hE, hp, ⟨k, hk, hfinal⟩, hcalls⟩

end Solver

end BoxBfgs
