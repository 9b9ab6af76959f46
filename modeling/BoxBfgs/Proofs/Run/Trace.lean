import BoxBfgs.Proofs.Run.Watched

namespace BoxBfgs

/-- A cap that is a count. -/
inductive Cap.Is : Cap → Nat → Prop
  | flag (b : Bool) : Is (.flag b) b.toNat
  | whole (k : Nat) : Is (.whole k) k

namespace Cap.Is

variable {c : Cap} {k : Nat}

theorem reached_iff (h : c.Is k) (count : Nat) : c.reached count = true ↔ k ≤ count := by
  cases h <;> simp [reached]

theorem rounds_eq (h : c.Is k) : c.rounds = k := by
  cases h <;> rfl

end Cap.Is

namespace Phase

variable {α : Type} {n : Nat}

/-- The iterate that is looked at, where one is. -/
def iterate? : Phase α n → Option (Iterate α n)
  | .check it => some it
  | _ => none

theorem iterate?_eq_some {ph : Phase α n} {it : Iterate α n} : ph.iterate? = some it ↔ ph = .check it := by
  cases ph <;> simp [iterate?]

theorem iterate?_of_final {ph : Phase α n} (h : ph.final = true) : ph.iterate? = none := by
  cases ph <;> first | rfl | cases h

end Phase

/-- A search of a run with what it found, the iterate that it started from and the iterations before it. -/
structure Search (α : Type) (n : Nat) where
  iterate : Iterate α n
  iterations : Nat
  found : Found α (Point α n)

/-- What is read off one more number, if anything, comes last. -/
theorem filterMap_range_succ {β : Type} (f : Nat → Option β) (k : Nat) :
    (List.range (k + 1)).filterMap f = (List.range k).filterMap f ++ (f k).toList := by
  rw [List.range_succ, List.filterMap_append]
  congr 1

namespace Run

variable {α κ : Type} [Scalar α] {n : Nat} (s : Setup α κ n) (m : Memory α n) (w : World α κ)

def first : State α κ n :=
  { phase := .start m, progress := { evaluator := { budget := s.options.evaluations }, step := 0 }, world := w }

/-- Where a run is after a number of steps. At its end it stays. -/
def after (k : Nat) : State α κ n := (step s)^[k] (first s m w)

/-- Whether a state is about to search its direction. -/
def seeks (st : State α κ n) : Bool :=
  match st.phase with
  | .search it d => falls s it d
  | _ => false

/-- The search that a state makes, if it comes to a result. -/
def search? (st : State α κ n) : Option (Search α n) :=
  match st.phase with
  | .search it d =>
      if falls s it d then
        match (sought s it d st.progress st.world).1 with
        | .ok found => some { iterate := it, iterations := st.progress.iterations, found }
        | .error _ => none
      else none
  | _ => none

/-- The iterates of a run up to a step. -/
def iterates (k : Nat) : List (Iterate α n) := (List.range (k + 1)).filterMap fun i => (after s m w i).phase.iterate?

def searches (k : Nat) : List (Search α n) := (List.range k).filterMap fun i => search? s (after s m w i)

theorem after_succ (k : Nat) : after s m w (k + 1) = step s (after s m w k) := Function.iterate_succ_apply' _ _ _

theorem iterates_succ (k : Nat) :
    iterates s m w (k + 1) = iterates s m w k ++ (after s m w (k + 1)).phase.iterate?.toList :=
  filterMap_range_succ _ _

theorem searches_succ (k : Nat) :
    searches s m w (k + 1) = searches s m w k ++ (search? s (after s m w k)).toList :=
  filterMap_range_succ _ _

variable {s m w} {st st' : State α κ n}

theorem step_of_final (h : st.phase.final = true) : step s st = st := by
  obtain ⟨phase, p, w⟩ := st
  cases phase with
  | ended | escaped => rfl
  | start | evaluating | check | cauchy | subspace | search => cases h

theorem loop_eq (fuel : Nat) (st : State α κ n) : loop s fuel st = (step s)^[fuel] st := by
  induction fuel generalizing st with
  | zero => rfl
  | succ fuel ih =>
      rw [loop, ih, Function.iterate_succ_apply]
      split
      · rename_i hfinal
        have hfixed : step s st = st := step_of_final hfinal
        rw [hfixed, Function.iterate_fixed hfixed]
      · rfl

theorem run_eq_after : run s m w = after s m w (fuel s.options.iterations.rounds) := loop_eq _ _

theorem search?_of_final (h : st.phase.final = true) : search? s st = none := by
  obtain ⟨phase, p, w⟩ := st
  cases phase with
  | ended | escaped => rfl
  | start | evaluating | check | cauchy | subspace | search => cases h

section

variable {it : Iterate α n} {d : Vector α n} {p : Progress α n} {w' : World α κ} {e : Evaluator (Vector α n) α n}

theorem search?_of_ok {found : Found α (Point α n)} (hd : falls s it d = true)
    (h : sought s it d p w = (.ok found, e, w')) :
    search? s ⟨.search it d, p, w⟩ = some { iterate := it, iterations := p.iterations, found } := by
  simp [search?, hd, h]

theorem search?_of_turning {ph : Phase α n} (ht : Turning s ph it) : search? s ⟨ph, p, w⟩ = none := by
  cases ht with
  | cauchy | subspace => rfl
  | search hd => simp [search?, hd]

end

/-- How a run comes to an end that it has a reason for. -/
inductive Ending (s : Setup α κ n) (st st' : State α κ n) : Option (Point α n) → Reason α → Prop
  | unevaluated {why : Failure}
      (h : st.progress.evaluator.call s.objective Tensor.ofVector s.start st.world =
        (.error (.failure why), st'.progress.evaluator, st'.world)) : Ending s st st' none (.failure why)
  | judged {it : Iterate α n} {r : Reason α} (hit : st.phase = .check it) (hp : Still st.progress st'.progress)
      (hr : Judged s it (s.bounds.projectedGradientNorm it.point.x it.point.g) st'.progress r) :
      Ending s st st' (some it.point) r
  | stuck {q : Point α n} {why : Obstacle α} : Ending s st st' (some q) (.stuck why)
  | failed {it : Iterate α n} {d : Vector α n} {w : World α κ} {found : Found α (Point α n)} {why : Failure}
      (h : sought s it d st.progress st.world = (.ok found, st'.progress.evaluator, w))
      (hf : found.fault = some (.failure why)) (hw : st'.world.client = w.client) :
      Ending s st st' (some it.point) (.failure why)
  | spent {it : Iterate α n} {d : Vector α n} {w : World α κ} {found : Found α (Point α n)}
      (h : sought s it d st.progress st.world = (.ok found, st'.progress.evaluator, w))
      (ho : found.outcome = .budgetExhausted) :
      Ending s st st' (some it.point) (.evaluations s.options.evaluations true)
  | lost {it : Iterate α n} {d : Vector α n} {found : Found α (Point α n)} (hit : st.phase = .search it d)
      (hsearch : search? s st = some { iterate := it, iterations := st.progress.iterations, found })
      (hnone : found.point = none) (hmany : patience ≤ st.progress.failures + 1) :
      Ending s st st' (some it.point) (.search (st.progress.failures + 1) found.outcome)

theorem Turn.ending (h : Turn s st st') {m : Memory α n} {c : Option (Point α n)} {r : Reason α}
    (hend : st'.phase = .ended m c r) : Ending s st st' c r := by
  cases h with
  | firstFailed h =>
      cases hend
      exact .unevaluated h
  | decided hp _ hr =>
      cases hend
      exact .judged rfl hp (reason?_judged hr)
  | stuck =>
      cases hend
      exact .stuck
  | failed _ h hf hp hw =>
      cases hend
      exact .failed (by rw [hp.evaluator]; exact h) hf hw
  | spent _ h _ ho hp =>
      cases hend
      exact .spent (by rw [hp.evaluator]; exact h) ho
  | lost hd h hnone _ hmany =>
      cases hend
      exact .lost rfl (search?_of_ok hd h) hnone hmany
  | start | first | firstEscaped | undecided | unshown | along | toward | reset | misfit | thrown | again | accepted
  | overfull => cases hend

/-- What holds at the start of a run, and is kept by whatever it can do in one step, holds throughout. The iterates
and the searches so far take part. -/
theorem trace_invariant {P : State α κ n → List (Iterate α n) → List (Search α n) → Prop} (hfirst : P (first s m w) [] [])
    (hturn : ∀ {st st' its found}, Turn s st st' → P st its found →
      P st' (its ++ st'.phase.iterate?.toList) (found ++ (search? s st).toList)) (k : Nat) :
    P (after s m w k) (iterates s m w k) (searches s m w k) := by
  induction k with
  | zero => exact hfirst
  | succ k ih =>
      rw [iterates_succ, searches_succ, after_succ]
      cases hfinal : (after s m w k).phase.final with
      | true => simpa [step_of_final hfinal, Phase.iterate?_of_final hfinal, search?_of_final hfinal] using ih
      | false => exact hturn (step_turn _ hfinal) ih

/-- The same for what only looks at the state. -/
theorem after_invariant {P : State α κ n → Prop} (hfirst : P (first s m w))
    (hturn : ∀ {st st'}, Turn s st st' → P st → P st') (k : Nat) : P (after s m w k) :=
  trace_invariant (P := fun st _ _ => P st) hfirst hturn k

/-- The same for what a step only keeps with the help of what else is known of where it starts and leads. -/
theorem after_induction {P : State α κ n → Prop} (hfirst : P (first s m w))
    (hturn : ∀ j, Turn s (after s m w j) (after s m w (j + 1)) → P (after s m w j) → P (after s m w (j + 1)))
    (k : Nat) : P (after s m w k) := by
  induction k with
  | zero => exact hfirst
  | succ k ih =>
      cases hfinal : (after s m w k).phase.final with
      | true =>
          rw [after_succ, step_of_final hfinal]
          exact ih
      | false =>
          refine hturn k ?_ ih
          rw [after_succ]
          exact step_turn _ hfinal

theorem seeks_of_final (h : st.phase.final = true) : seeks s st = false := by
  obtain ⟨phase, p, w⟩ := st
  cases phase with
  | ended | escaped => rfl
  | start | evaluating | check | cauchy | subspace | search => cases h

theorem after_of_final {m : Memory α n} {w : World α κ} {k : Nat} (h : (after s m w k).phase.final = true) {j : Nat}
    (hkj : k ≤ j) : after s m w j = after s m w k := by
  induction j, hkj using Nat.le_induction with
  | base => rfl
  | succ j _ ih => rw [after_succ, ih, step_of_final h]

/-- Where a run has ended, it ended in one step, to which nothing has come since. -/
theorem last_turn {m : Memory α n} {w : World α κ} {k : Nat} (h : (after s m w k).phase.final = true) :
    ∃ j, Turn s (after s m w j) (after s m w k) ∧ iterates s m w k = iterates s m w j ∧
      searches s m w k = searches s m w j ++ (search? s (after s m w j)).toList := by
  induction k with
  | zero => cases h
  | succ k ih =>
      cases hfinal : (after s m w k).phase.final with
      | true =>
          have hstay : after s m w (k + 1) = after s m w k := after_of_final hfinal (Nat.le_succ k)
          obtain ⟨j, hturn, hits, hfound⟩ := ih hfinal
          refine ⟨j, hstay ▸ hturn, ?_, ?_⟩
          · rw [iterates_succ, hstay, Phase.iterate?_of_final hfinal, ← hits, Option.toList_none, List.append_nil]
          · rw [searches_succ, search?_of_final hfinal, ← hfound, Option.toList_none, List.append_nil]
      | false =>
          refine ⟨k, ?_, ?_, searches_succ _ _ _ _⟩
          · rw [after_succ]
            exact step_turn _ hfinal
          · rw [iterates_succ, Phase.iterate?_of_final h, Option.toList_none, List.append_nil]

/-- Watching a run does not change where it goes. -/
theorem after_plain (m : Memory α n) (w : World α (Watched α κ)) (k : Nat) :
    (after s.watched m w k).plain = after s m w.plain k := by
  induction k with
  | zero => rfl
  | succ k ih => rw [after_succ, after_succ, step_plain, ih]

end Run

namespace Solver

variable {α κ : Type} (v : Solver α κ)

theorem closed_client (p : Problem α (World α κ)) (saved : Option Log.Saved) (st : State α κ p.n) :
    (v.closed p saved st).2.2.client = st.world.client := by
  have hleave (w : World α κ) : (w.leave v.id saved).client = w.client := by
    cases saved <;> rfl
  simp only [closed]
  split
  · exact (hleave _).trans (World.client_emit _ _ _ _ _)
  · exact hleave _
  · exact hleave _

theorem adapt_ne_budget {offer : Offer α (World α κ)} {c : Cap} : offer.adapt ≠ .error (.budget c) := by
  intro h
  cases offer with
  | objective | function | other => cases h
  | object sort v g | pair v g => cases v <;> cases g <;> cases h

variable [Scalar α]

theorem place_options {f : Objective α (World α κ)} {o : Options α} {start : Start α} {p : Problem α (World α κ)}
    (h : place f o start = .ok p) : p.options = o ∧ p.objective = f := by
  simp only [place, refuse] at h
  split at h
  · cases h
  · cases h
  · split at h
    · cases h
    split at h
    · cases h
    split at h
    · cases h
      exact ⟨rfl, rfl⟩
    · split at h
      · cases h
        exact ⟨rfl, rfl⟩
      · cases h

theorem prepare_options {o : Options α} {offer : Offer α (World α κ)} {start : Start α} {p : Problem α (World α κ)}
    (h : prepare (.ok o) offer start = .ok p) : p.options = o ∧ offer.adapt = .ok p.objective := by
  obtain ⟨_, hk, h⟩ := bind_eq_ok h
  cases hk
  obtain ⟨f, hf, h⟩ := bind_eq_ok h
  obtain ⟨ho, rfl⟩ := place_options h
  exact ⟨ho, hf⟩

theorem place_ne_budget {f : Objective α (World α κ)} {o : Options α} {start : Start α} {c : Cap} :
    place f o start ≠ .error (.budget c) := by
  intro h
  simp only [place, refuse] at h
  split at h
  · cases h
  · cases h
  · split_ifs at h
    · cases h
    · cases h
    · split at h
      · cases h
      · split_ifs at h
        cases h

theorem prepare_ne_budget {o : Options α} {offer : Offer α (World α κ)} {start : Start α} {c : Cap} :
    prepare (.ok o) offer start ≠ .error (.budget c) := by
  have hread : (Except.ok o : Except (Fault α) (Options α)) ≠ .error (.budget c) := fun h => by cases h
  exact bind_ne_error hread fun _ => bind_ne_error adapt_ne_budget fun _ => place_ne_budget

section

variable (p : Problem α (World α κ)) (w : World α κ) (k : Nat)

/-- Where the run of a problem is after a number of steps. -/
def trace : State α κ p.n :=
  Run.after (v.toSetup p) (.renew v.memory p.n p.options.depth) (w.enter v.id p.options.verbosity).1 k

def iterates : List (Iterate α p.n) :=
  Run.iterates (v.toSetup p) (.renew v.memory p.n p.options.depth) (w.enter v.id p.options.verbosity).1 k

def searches : List (Search α p.n) :=
  Run.searches (v.toSetup p) (.renew v.memory p.n p.options.depth) (w.enter v.id p.options.verbosity).1 k

theorem final_eq_trace : v.final p w = v.trace p w (Run.fuel p.options.iterations.rounds) := Run.run_eq_after

theorem trace_plain (w : World α (Watched α κ)) : (v.watched.trace p.watched w k).plain = v.trace p w.plain k := by
  have hafter := Run.after_plain (s := v.toSetup p) (.renew v.memory p.n p.options.depth)
    (w.enter v.id p.options.verbosity).1 k
  rw [trace.eq_def v, enter_plain]
  exact hafter

theorem trace_watched : (v.watched.trace p.watched (w.watched []) k).plain = v.trace p w k :=
  v.trace_plain p k (w.watched [])

theorem phase_watched : (v.watched.trace p.watched (w.watched []) k).phase = (v.trace p w k).phase :=
  congrArg State.phase (v.trace_watched p w k)

end

variable {v}

section

variable {offer : Offer α (World α κ)} {start : Start α} {options : Except (Fault α) (Options α)} {w : World α κ}

theorem minimize_of_prepare (hrun : w.isRunning v.id = false) {p : Problem α (World α κ)}
    (hp : prepare options offer start = .ok p) : v.minimize offer start options w = v.solve p w := by
  rw [minimize, hrun, if_neg Bool.false_ne_true, hp]

/-- A run that has ended in time is answered with what it had come to by then. -/
theorem minimize_of_ended {p : Problem α (World α κ)} (hp : prepare options offer start = .ok p)
    (hrun : w.isRunning v.id = false) {k : Nat} (hk : k ≤ Run.fuel p.options.iterations.rounds) {m : Memory α p.n}
    {c : Option (Point α p.n)} {r : Reason α} (hend : (v.trace p w k).phase = .ended m c r) :
    (v.minimize offer start options w).1 =
      .ok (answer p.start (chosen c r (v.trace p w k).progress.evaluator)
        { reason := r, iterations := (v.trace p w k).progress.iterations,
          evaluations := (v.trace p w k).progress.evaluator.count }) := by
  have hfinal : (v.trace p w k).phase.final = true := by
    rw [hend]
    rfl
  have hlast : v.trace p w (Run.fuel p.options.iterations.rounds) = v.trace p w k := Run.after_of_final hfinal hk
  rw [minimize_of_prepare hrun hp, solve_eq, final_eq_trace, hlast]
  simp only [closed, hend]

theorem calls_of_prepare (hrun : w.isRunning v.id = false) {p : Problem α (World α κ)}
    (hp : prepare options offer start = .ok p) :
    v.calls offer start options w =
      (v.watched.trace p.watched (w.watched []) (Run.fuel p.options.iterations.rounds)).world.calls := by
  have hp' : prepare options offer.watched start = .ok p.watched := by
    rw [prepare_watched, hp]
    rfl
  have hrun' : (w.watched []).isRunning v.watched.id = false := hrun
  rw [calls, minimize_of_prepare hrun' hp', solve_eq, final_eq_trace]
  exact World.calls_of_client (closed_client _ _ _ _)

theorem calls_of_running (hrun : w.isRunning v.id = true) : v.calls offer start options w = [] := by
  have hrun' : (w.watched []).isRunning v.watched.id = true := hrun
  rw [calls, minimize, hrun', if_pos rfl]
  rfl

theorem client_of_error (why : Fault α) (hp : prepare options offer start = .error why) :
    (v.minimize offer start options w).2.2.client = w.client := by
  rw [minimize, hp]
  split
  · rfl
  · cases why with
    | invalid why =>
        simp only [reject]
        split <;> rfl
    | _ => rfl

theorem calls_of_error (why : Fault α) (hp : prepare options offer start = .error why) :
    v.calls offer start options w = [] := by
  have hp' : prepare options offer.watched start = .error why := by
    rw [prepare_watched, hp]
    rfl
  exact World.calls_of_client (client_of_error why hp')

theorem rejected_of_error {why : Fault α} (hp : prepare options offer start = .error why) {a : Answer α}
    (h : (v.minimize offer start options w).1 = .ok a) : ∃ echo why, a = .rejected echo why := by
  rw [minimize, hp] at h
  split at h
  · cases h
  · cases why with
    | invalid why =>
        simp only [reject] at h
        split at h
        · cases h
        · cases h
          exact ⟨_, _, rfl⟩
        · cases h
          exact ⟨_, _, rfl⟩
    | _ => cases h

/-- The answer to what is not refused is read off the end of the run. -/
theorem minimize_answer {p : Problem α (World α κ)} (hp : prepare options offer start = .ok p) {a : Answer α}
    (h : (v.minimize offer start options w).1 = .ok a) : ∃ k m c r,
      (v.trace p w k).phase = .ended m c r ∧
      a = answer p.start (chosen c r (v.trace p w k).progress.evaluator)
        { reason := r, iterations := (v.trace p w k).progress.iterations,
          evaluations := (v.trace p w k).progress.evaluator.count } ∧
      (v.minimize offer start options w).2.1.evaluations = (v.trace p w k).progress.evaluator.count ∧
      v.calls offer start options w = (v.watched.trace p.watched (w.watched []) k).world.calls := by
  refine ⟨Run.fuel p.options.iterations.rounds, ?_⟩
  rw [← final_eq_trace]
  cases hrun : w.isRunning v.id with
  | true =>
      rw [minimize, hrun, if_pos rfl] at h
      cases h
  | false =>
      rw [minimize_of_prepare hrun hp, solve_eq] at h ⊢
      simp only [closed] at h ⊢
      split at h
      · rename_i m c r hend
        cases h
        rw [hend]
        exact ⟨m, c, r, rfl, rfl, rfl, calls_of_prepare hrun hp⟩
      · cases h
      · cases h

/-- A fault that ends a minimisation ends its run, unless it is found before or is one of the solver itself. -/
theorem minimize_error {why : Fault α} (h : (v.minimize offer start options w).1 = .error why) :
    why = .reentered ∨ why = .unfinished ∨ prepare options offer start = .error why ∨ why = .misread .unbounded ∨
      ∃ p k m, prepare options offer start = .ok p ∧ (v.trace p w k).phase = .escaped m why := by
  rw [minimize] at h
  split at h
  · cases h
    exact .inl rfl
  · cases hp : prepare options offer start with
    | ok p =>
        rw [hp] at h
        dsimp only at h
        rw [solve_eq] at h
        simp only [closed] at h
        split at h
        · cases h
        · rename_i hend
          cases h
          rw [final_eq_trace] at hend
          exact .inr (.inr (.inr (.inr ⟨p, _, _, rfl, hend⟩)))
        · cases h
          exact .inr (.inl rfl)
    | error why' =>
        rw [hp] at h
        cases why' with
        | invalid why' =>
            simp only [reject] at h
            split at h
            · cases h
              exact .inr (.inr (.inr (.inl rfl)))
            · cases h
            · cases h
        | _ =>
            cases h
            exact .inr (.inr (.inl rfl))

end

end Solver

end BoxBfgs
