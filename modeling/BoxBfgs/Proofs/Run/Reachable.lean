import BoxBfgs.Proofs.Bounds
import BoxBfgs.Proofs.Evaluator
import BoxBfgs.Solver.Basic

namespace BoxBfgs

/-- What the checks of options leave, with whole caps. -/
structure Options.Accepted (o : Options ℝ) : Prop where
  depth : 1 ≤ o.depth ∧ o.depth ≤ Memory.maxDepth
  fTolerance : 0 ≤ o.fTolerance
  gTolerance : 0 ≤ o.gTolerance
  iterations : ∃ i, o.iterations = .whole i ∧ 0 ≤ i
  evaluations : ∃ i, o.evaluations = .whole i ∧ 1 ≤ i
  wolfe : 0 < o.c1 ∧ o.c1 < o.c2 ∧ o.c2 < 1
  width : 0 ≤ o.width ∧ o.width < 1
  searchEvaluations : ∃ i, o.searchEvaluations = .whole i ∧ 1 ≤ i
  bounds : ∀ n b, o.bounds = some ⟨n, b⟩ → b.Built

theorem Options.standard_accepted : (standard : Options ℝ).Accepted where
  depth := by decide
  fTolerance := by norm_num [standard]
  gTolerance := by norm_num [standard]
  iterations := ⟨100, rfl, by decide⟩
  evaluations := ⟨1000, rfl, by decide⟩
  wolfe := by norm_num [standard]
  width := by norm_num [standard]
  searchEvaluations := ⟨20, rfl, by decide⟩
  bounds n b h := by cases h

/-- What the checks of options leave, whatever the caps are. -/
structure Options.Checked (o : Options ℝ) : Prop where
  depth : 1 ≤ o.depth ∧ o.depth ≤ Memory.maxDepth
  fTolerance : 0 ≤ o.fTolerance
  gTolerance : 0 ≤ o.gTolerance
  wolfe : 0 < o.c1 ∧ o.c1 < o.c2 ∧ o.c2 < 1
  width : 0 ≤ o.width ∧ o.width < 1
  bounds : ∀ n b, o.bounds = some ⟨n, b⟩ → b.Built

theorem Options.Accepted.checked {o : Options ℝ} (h : o.Accepted) : o.Checked :=
  ⟨h.depth, h.fTolerance, h.gTolerance, h.wolfe, h.width, h.bounds⟩

/-- A run with checked options and bounds that starts inside them. -/
structure Setup.Ready {κ : Type} {n : Nat} (s : Setup ℝ κ n) : Prop where
  options : s.options.Accepted
  bounds : s.bounds.Built
  start : s.bounds.Inside s.start

/-- The same without a word on the caps, which where a run goes does not depend on. -/
structure Setup.Checked {κ : Type} {n : Nat} (s : Setup ℝ κ n) : Prop where
  options : s.options.Checked
  bounds : s.bounds.Built
  start : s.bounds.Inside s.start

theorem Setup.Ready.checked {κ : Type} {n : Nat} {s : Setup ℝ κ n} (h : s.Ready) : s.Checked :=
  ⟨h.options.checked, h.bounds, h.start⟩

namespace Run

variable {κ : Type} {n : Nat} {s : Setup ℝ κ n} {m : Memory ℝ n} {w : World ℝ κ} {st : State ℝ κ n}

noncomputable def initial (s : Setup ℝ κ n) (m : Memory ℝ n) (w : World ℝ κ) : State ℝ κ n :=
  { phase := .start m, progress := { evaluator := { budget := s.options.evaluations }, step := 0 }, world := w }

/-- The states that a run goes through. -/
inductive Reachable (s : Setup ℝ κ n) (m : Memory ℝ n) (w : World ℝ κ) : State ℝ κ n → Prop
  | initial : Reachable s m w (initial s m w)
  | step {st : State ℝ κ n} (h : Reachable s m w st) : Reachable s m w (step s st)

theorem Reachable.loop (h : Reachable s m w st) (fuel : Nat) : Reachable s m w (loop s fuel st) := by
  induction fuel generalizing st with
  | zero => exact h
  | succ fuel ih =>
      rw [Run.loop]
      split_ifs
      · exact h
      · exact ih h.step

theorem run_reachable (s : Setup ℝ κ n) (m : Memory ℝ n) (w : World ℝ κ) : Reachable s m w (run s m w) :=
  Reachable.initial.loop _

end Run

namespace Solver

variable {κ : Type}

def setup (v : Solver ℝ κ) (p : Problem ℝ (World ℝ κ)) : Setup ℝ κ p.n :=
  { id := v.id, objective := p.objective, callback := v.callback, options := p.options, bounds := p.bounds,
    start := p.start }

noncomputable def last (v : Solver ℝ κ) (p : Problem ℝ (World ℝ κ)) (w : World ℝ κ) : State ℝ κ p.n :=
  Run.run (v.setup p) (.renew v.memory p.n p.options.depth) (w.enter v.id p.options.verbosity).1

theorem place_eq_ok {f : Objective ℝ (World ℝ κ)} {o : Options ℝ} {start : Start ℝ} {p : Problem ℝ (World ℝ κ)}
    (hb : ∀ n b, o.bounds = some ⟨n, b⟩ → b.Built) (h : place f o start = .ok p) :
    p.options = o ∧ p.bounds.Built ∧ p.bounds.Inside p.start := by
  simp only [place, refuse] at h
  split at h
  · cases h
  · cases h
  · split at h
    · cases h
    split at h
    · cases h
    split at h
    · cases h
      exact ⟨rfl, .free _, Bounds.Built.project_inside (.free _) _⟩
    · rename_i k b ho
      split at h
      · rename_i hk
        subst hk
        cases h
        exact ⟨rfl, hb _ _ ho, (hb _ _ ho).project_inside _⟩
      · cases h

theorem prepare_eq_ok {o : Options ℝ} {offer : Offer ℝ (World ℝ κ)} {start : Start ℝ} {p : Problem ℝ (World ℝ κ)}
    (hb : ∀ n b, o.bounds = some ⟨n, b⟩ → b.Built) (h : prepare (.ok o) offer start = .ok p) :
    p.options = o ∧ p.bounds.Built ∧ p.bounds.Inside p.start := by
  obtain ⟨_, hk, h⟩ := bind_eq_ok h
  cases hk
  obtain ⟨f, -, h⟩ := bind_eq_ok h
  exact place_eq_ok hb h

theorem prepare_ready (v : Solver ℝ κ) {o : Options ℝ} {offer : Offer ℝ (World ℝ κ)} {start : Start ℝ}
    {p : Problem ℝ (World ℝ κ)} (ho : o.Accepted) (h : prepare (.ok o) offer start = .ok p) : (v.setup p).Ready := by
  obtain ⟨hoptions, hbounds, hstart⟩ := prepare_eq_ok ho.bounds h
  rw [← hoptions] at ho
  exact ⟨ho, hbounds, hstart⟩

theorem prepare_checked (v : Solver ℝ κ) {o : Options ℝ} {offer : Offer ℝ (World ℝ κ)} {start : Start ℝ}
    {p : Problem ℝ (World ℝ κ)} (ho : o.Checked) (h : prepare (.ok o) offer start = .ok p) : (v.setup p).Checked := by
  obtain ⟨hoptions, hbounds, hstart⟩ := prepare_eq_ok ho.bounds h
  rw [← hoptions] at ho
  exact ⟨ho, hbounds, hstart⟩

theorem answer_status {α : Type} {n : Nat} (start : Vector α n) (point : Option (Point α n)) (status : Status α) :
    (answer start point status).status = status := by
  cases point <;> rfl

theorem solve_eq_ok {v : Solver ℝ κ} {p : Problem ℝ (World ℝ κ)} {w : World ℝ κ} {a : Answer ℝ}
    (h : (v.solve p w).1 = .ok a) : ∃ m c, (v.last p w).phase = .ended m c a.status.reason := by
  simp only [solve] at h
  split at h
  · rename_i m c reason hphase
    cases h
    refine ⟨m, c, ?_⟩
    rw [answer_status]
    exact hphase
  · cases h
  · cases h

end Solver

end BoxBfgs
