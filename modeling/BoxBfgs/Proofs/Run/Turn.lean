import BoxBfgs.Proofs.Search.Trials
import BoxBfgs.Solver.Run

namespace BoxBfgs

namespace World

variable {α κ : Type} (w : World α κ)

@[simp] theorem client_emit (id : Nat) (needed : Verbosity) (level : Level) (e : Event α) :
    (w.emit id needed level e).client = w.client := by
  rw [emit]
  split <;> rfl

end World

namespace Memory

variable {α : Type} [Scalar α] {n : Nat} (m : Memory α n)

@[simp] theorem isEmpty_clear : m.clear.isEmpty = true := rfl

@[simp] theorem isEmpty_keepFactor : m.keepFactor.isEmpty = m.isEmpty := by
  rw [keepFactor]
  split
  · rfl
  · split <;> rfl

end Memory

namespace Run

variable {α κ : Type} [Scalar α] {n : Nat}

def tried (s : Setup α κ n) (it : Iterate α n) (d : Vector α n) (t : α) (ew : Evaluator (Vector α n) α n × World α κ) :
    Attempt α (Point α n) × Evaluator (Vector α n) α n × World α κ :=
  ew.1.attempt s.objective Tensor.ofVector d (trial s it.point.x d t) ew.2

def sought (s : Setup α κ n) (it : Iterate α n) (d : Vector α n) (p : Progress α n) (w : World α κ) :
    Except (Fault α) (Found α (Point α n)) × Evaluator (Vector α n) α n × World α κ :=
  Line.search (tried s it d) s.options.line it.point.f (Vec.dot it.point.g d)
    (initialStep s p.iterations it.point.g (longestStep s it.point.x d)) (longestStep s it.point.x d) (p.evaluator, w)

/-- An iterate shown to the client, unless it is the first one. -/
def reported (s : Setup α κ n) (it : Iterate α n) (p : Progress α n) (w : World α κ) :
    Except (Fault α) Unit × Progress α n × World α κ :=
  match it.previous with
  | none => (.ok (), p, w)
  | some f => record s it f (s.bounds.projectedGradientNorm it.point.x it.point.g) p w

/-- What follows when an iterate was shown. -/
def judged (s : Setup α κ n) (it : Iterate α n) : Except (Fault α) Unit × Progress α n × World α κ → State α κ n
  | (.error why, p, w) => ⟨.escaped it.memory why, p, w⟩
  | (.ok (), p, w) =>
      match reason? s it (s.bounds.projectedGradientNorm it.point.x it.point.g) p with
      | some r => ⟨.ended it.memory (some it.point) r, p, w⟩
      | none => ⟨.cauchy it, p, w⟩

/-- What follows from the result of a search. -/
def followed (s : Setup α κ n) (it : Iterate α n) (p : Progress α n) :
    Except (Fault α) (Found α (Point α n)) × Evaluator (Vector α n) α n × World α κ → State α κ n
  | (.error why, e, w) => ⟨.escaped it.memory why, { p with evaluator := e }, w⟩
  | (.ok found, e, w) =>
      let p := { p with evaluator := e, outcome := some found.outcome }
      let w := w.emit s.id .verbose 10 (.searched found.outcome found.evaluations found.step)
      match found.fault, found.point with
      | some (.failure why), _ => ⟨.ended it.memory (some it.point) (.failure why), p, w⟩
      | _, none => rejected s it found.outcome p w
      | _, some new => accepted s it found.outcome found.step new p w

/-- Whether a direction is searched: it has to fall, and the box has to leave room to go along it. -/
def falls (s : Setup α κ n) (it : Iterate α n) (d : Vector α n) : Bool :=
  (Vec.dot it.point.g d < 0 && Scalar.isFinite (Vec.dot it.point.g d)) && !decide (longestStep s it.point.x d ≤ 0)

/-- The iterate is the same, whatever became of the memory. -/
structure Alike (it it' : Iterate α n) : Prop where
  point : it'.point = it.point
  previous : it'.previous = it.previous

/-- Nothing that is counted changes. -/
structure Still (p p' : Progress α n) : Prop where
  evaluator : p'.evaluator = p.evaluator
  iterations : p'.iterations = p.iterations
  failures : p'.failures = p.failures

/-- What an iterate that is shown may do to the world. -/
inductive Shown (s : Setup α κ n) (w : World α κ) : World α κ → Prop
  | kept {w' : World α κ} (hw : w'.client = w.client) : Shown s w w'
  | called {f : Callback α κ} {r : Record α} {w' : World α κ} (hf : s.callback = some f) (hw : w'.client = w.client) :
      Shown s w (f r w').2

/-- Why an iterate is the last one. -/
inductive Judged (s : Setup α κ n) (it : Iterate α n) (norm : α) (p : Progress α n) : Reason α → Prop
  | gradient (hnorm : norm ≤ s.options.gTolerance) : Judged s it norm p (.gradient norm s.options.gTolerance)
  | objective {f : α} (hnorm : ¬norm ≤ s.options.gTolerance) (hprevious : it.previous = some f)
      (hpos : s.options.fTolerance > 0)
      (hle : relativeDecrease f it.point.f ≤ s.options.fTolerance * Scalar.epsilon) :
      Judged s it norm p (.objective (relativeDecrease f it.point.f) (s.options.fTolerance * Scalar.epsilon))
  | rounding : Judged s it norm p .rounding
  | iterations (h : s.options.iterations.reached p.iterations = true) :
      Judged s it norm p (.iterations s.options.iterations)
  | evaluations (h : p.evaluator.exhausted = true) : Judged s it norm p (.evaluations s.options.evaluations false)

/-- Phases from which a run may have to turn back, with the iterate there. -/
inductive Turning (s : Setup α κ n) : Phase α n → Iterate α n → Prop
  | cauchy {it : Iterate α n} : Turning s (.cauchy it) it
  | subspace {it : Iterate α n} {c : Option (CauchyPoint α n it.memory.size)} : Turning s (.subspace it c) it
  | search {it : Iterate α n} {d : Vector α n} (hd : falls s it d = false) : Turning s (.search it d) it

/-- What a run can do in one step. -/
inductive Turn (s : Setup α κ n) : State α κ n → State α κ n → Prop
  | start {m : Memory α n} {p : Progress α n} {w w' : World α κ} (hw : w'.client = w.client) :
      Turn s ⟨.start m, p, w⟩ ⟨.evaluating m.clear, p, w'⟩
  | first {m : Memory α n} {p : Progress α n} {w w' : World α κ} {e : Evaluator (Vector α n) α n} {point : Point α n}
      (h : p.evaluator.call s.objective Tensor.ofVector s.start w = (.ok point, e, w')) :
      Turn s ⟨.evaluating m, p, w⟩ ⟨.check { point, previous := none, memory := m }, { p with evaluator := e }, w'⟩
  | firstFailed {m : Memory α n} {p : Progress α n} {w w' : World α κ} {e : Evaluator (Vector α n) α n} {why : Failure}
      (h : p.evaluator.call s.objective Tensor.ofVector s.start w = (.error (.failure why), e, w')) :
      Turn s ⟨.evaluating m, p, w⟩ ⟨.ended m none (.failure why), { p with evaluator := e }, w'⟩
  | firstEscaped {m : Memory α n} {p : Progress α n} {w w' : World α κ} {e : Evaluator (Vector α n) α n} {why : Fault α}
      (h : p.evaluator.call s.objective Tensor.ofVector s.start w = (.error why, e, w')) :
      Turn s ⟨.evaluating m, p, w⟩ ⟨.escaped m why, { p with evaluator := e }, w'⟩
  | decided {it : Iterate α n} {p p' : Progress α n} {w w' : World α κ} {r : Reason α} (hp : Still p p')
      (hw : Shown s w w')
      (hr : reason? s it (s.bounds.projectedGradientNorm it.point.x it.point.g) p' = some r) :
      Turn s ⟨.check it, p, w⟩ ⟨.ended it.memory (some it.point) r, p', w'⟩
  | undecided {it : Iterate α n} {p p' : Progress α n} {w w' : World α κ} (hp : Still p p') (hw : Shown s w w')
      (hr : reason? s it (s.bounds.projectedGradientNorm it.point.x it.point.g) p' = none) :
      Turn s ⟨.check it, p, w⟩ ⟨.cauchy it, p', w'⟩
  | unshown {it : Iterate α n} {p p' : Progress α n} {w w' : World α κ} {why : Fault α} (hp : Still p p')
      (hw : Shown s w w')
      (hwhy : ∀ c, why = .budget c → ∃ f r w1, s.callback = some f ∧ (f r w1).1 = .error (.budget c)) :
      Turn s ⟨.check it, p, w⟩ ⟨.escaped it.memory why, p', w'⟩
  | along {it it' : Iterate α n} {c : Option (CauchyPoint α n it'.memory.size)} {p : Progress α n} {w w' : World α κ}
      (hw : w'.client = w.client) (hit : Alike it it') (hm : it'.memory.isEmpty = it.memory.isEmpty) :
      Turn s ⟨.cauchy it, p, w⟩ ⟨.subspace it' c, p, w'⟩
  | toward {it : Iterate α n} {c : Option (CauchyPoint α n it.memory.size)} {d : Vector α n} {p : Progress α n}
      {w w' : World α κ} (hw : w'.client = w.client) : Turn s ⟨.subspace it c, p, w⟩ ⟨.search it d, p, w'⟩
  | reset {ph : Phase α n} {it it' : Iterate α n} {p p' : Progress α n} {w w' : World α κ} (ht : Turning s ph it)
      (hp : Still p p') (hw : w'.client = w.client) (hit : Alike it it') (hm : it.memory.isEmpty = false)
      (hm' : it'.memory.isEmpty = true) : Turn s ⟨ph, p, w⟩ ⟨.cauchy it', p', w'⟩
  | stuck {ph : Phase α n} {it : Iterate α n} {m : Memory α n} {why : Obstacle α} {p : Progress α n} {w : World α κ}
      (ht : Turning s ph it) : Turn s ⟨ph, p, w⟩ ⟨.ended m (some it.point) (.stuck why), p, w⟩
  | misfit {ph : Phase α n} {it : Iterate α n} {m : Memory α n} {p : Progress α n} {w : World α κ}
      (ht : Turning s ph it) : Turn s ⟨ph, p, w⟩ ⟨.escaped m .nonFinite, p, w⟩
  | thrown {it : Iterate α n} {d : Vector α n} {p : Progress α n} {w w' : World α κ} {e : Evaluator (Vector α n) α n}
      {why : Fault α} (hd : falls s it d = true) (h : sought s it d p w = (.error why, e, w')) :
      Turn s ⟨.search it d, p, w⟩ ⟨.escaped it.memory why, { p with evaluator := e }, w'⟩
  | failed {it : Iterate α n} {d : Vector α n} {p p' : Progress α n} {w w1 w' : World α κ}
      {e : Evaluator (Vector α n) α n} {found : Found α (Point α n)} {why : Failure} (hd : falls s it d = true)
      (h : sought s it d p w = (.ok found, e, w1)) (hf : found.fault = some (.failure why))
      (hp : Still { p with evaluator := e } p') (hw : w'.client = w1.client) :
      Turn s ⟨.search it d, p, w⟩ ⟨.ended it.memory (some it.point) (.failure why), p', w'⟩
  | spent {it : Iterate α n} {d : Vector α n} {p p' : Progress α n} {w w1 w' : World α κ}
      {e : Evaluator (Vector α n) α n} {found : Found α (Point α n)} (hd : falls s it d = true)
      (h : sought s it d p w = (.ok found, e, w1)) (hnone : found.point = none)
      (ho : found.outcome = .budgetExhausted) (hp : Still { p with evaluator := e } p') (hw : w'.client = w1.client) :
      Turn s ⟨.search it d, p, w⟩
        ⟨.ended it.memory (some it.point) (.evaluations s.options.evaluations true), p', w'⟩
  | lost {it : Iterate α n} {d : Vector α n} {p p' : Progress α n} {w w1 w' : World α κ}
      {e : Evaluator (Vector α n) α n} {found : Found α (Point α n)} (hd : falls s it d = true)
      (h : sought s it d p w = (.ok found, e, w1)) (hnone : found.point = none)
      (hp : Still { p with evaluator := e, failures := p.failures + 1 } p') (hmany : patience ≤ p.failures + 1)
      (hw : w'.client = w1.client) :
      Turn s ⟨.search it d, p, w⟩
        ⟨.ended it.memory (some it.point) (.search (p.failures + 1) found.outcome), p', w'⟩
  | again {it it' : Iterate α n} {d : Vector α n} {p p' : Progress α n} {w w1 w' : World α κ}
      {e : Evaluator (Vector α n) α n} {found : Found α (Point α n)} (hd : falls s it d = true)
      (h : sought s it d p w = (.ok found, e, w1)) (hnone : found.point = none)
      (hp : Still { p with evaluator := e, failures := p.failures + 1 } p') (hfew : p.failures + 1 < patience)
      (hw : w'.client = w1.client) (hit : Alike it it') (hm' : it'.memory.isEmpty = true) :
      Turn s ⟨.search it d, p, w⟩ ⟨.cauchy it', p', w'⟩
  | accepted {it : Iterate α n} {d : Vector α n} {m : Memory α n} {p p' : Progress α n} {w w1 w' : World α κ}
      {e : Evaluator (Vector α n) α n} {found : Found α (Point α n)} {new : Point α n} (hd : falls s it d = true)
      (h : sought s it d p w = (.ok found, e, w1)) (hnew : found.point = some new)
      (hp : Still { p with evaluator := e, iterations := p.iterations + 1, failures := 0 } p')
      (hw : w'.client = w1.client) :
      Turn s ⟨.search it d, p, w⟩ ⟨.check { point := new, previous := some it.point.f, memory := m }, p', w'⟩
  | overfull {it : Iterate α n} {d : Vector α n} {p p' : Progress α n} {w w1 w' : World α κ}
      {e : Evaluator (Vector α n) α n} {found : Found α (Point α n)} (hd : falls s it d = true)
      (h : sought s it d p w = (.ok found, e, w1)) (hp : Still { p with evaluator := e, failures := 0 } p')
      (hw : w'.client = w1.client) :
      Turn s ⟨.search it d, p, w⟩ ⟨.escaped it.memory .outOfRange, p', w'⟩

variable {s : Setup α κ n} {it : Iterate α n} {d : Vector α n} {p : Progress α n} {w : World α κ}

theorem reason?_judged {norm : α} {r : Reason α} (h : reason? s it norm p = some r) : Judged s it norm p r := by
  simp only [reason?] at h
  split at h
  · rename_i hnorm
    cases h
    exact .gradient hnorm
  · rename_i hnorm
    split at h
    · rename_i hsettled
      cases h
      obtain ⟨a, ha, hsettled⟩ := Option.bind_eq_some_iff.mp hsettled
      obtain ⟨f, hprevious, rfl⟩ := Option.map_eq_some_iff.mp ha
      split at hsettled
      · rename_i hdecrease
        cases hsettled
        rw [Bool.and_eq_true, decide_eq_true_eq, decide_eq_true_eq] at hdecrease
        exact .objective hnorm hprevious hdecrease.1 hdecrease.2
      · split at hsettled
        · cases hsettled
          exact .rounding
        · cases hsettled
    · split at h
      · rename_i hreached
        cases h
        exact .iterations hreached
      · split at h
        · rename_i hout
          cases h
          exact .evaluations hout
        · cases h

/-- An iterate that is not the last one leaves an iteration and an evaluation. -/
theorem reason?_none {norm : α} (h : reason? s it norm p = none) :
    s.options.iterations.reached p.iterations = false ∧ p.evaluator.exhausted = false := by
  simp only [reason?] at h
  split at h
  · cases h
  · split at h
    · cases h
    · split at h
      · cases h
      · rename_i hreached
        split at h
        · cases h
        · rename_i hout
          exact ⟨Bool.eq_false_iff.mpr hreached, Bool.eq_false_iff.mpr hout⟩

theorem breakdown_turn {ph : Phase α n} {it' : Iterate α n} (ht : Turning s ph it) (hit : Alike it it')
    (hm : it'.memory.isEmpty = it.memory.isEmpty) (why : Obstacle α) : Turn s ⟨ph, p, w⟩ (breakdown s it' why p w) := by
  rw [breakdown]
  split
  · rw [hit.point]
    exact .stuck ht
  · rename_i he
    refine .reset ht ⟨rfl, rfl, rfl⟩ (World.client_emit _ _ _ _ _) ⟨hit.point, hit.previous⟩ ?_
      (Memory.isEmpty_clear _)
    rwa [← hm, ← Bool.not_eq_true]

theorem unsolved_turn {ph : Phase α n} {it' : Iterate α n} (ht : Turning s ph it) (hit : Alike it it')
    (hm : it'.memory.isEmpty = it.memory.isEmpty) (why : Unsolved α) : Turn s ⟨ph, p, w⟩ (unsolved s it' why p w) := by
  cases why with
  | breakdown why => exact breakdown_turn ht hit hm _
  | nonFinite => exact .misfit ht

theorem cauchy_turn : Turn s ⟨.cauchy it, p, w⟩ (cauchy s it p w) := by
  have hm : it.memory.keepFactor.isEmpty = it.memory.isEmpty := Memory.isEmpty_keepFactor _
  rw [cauchy]
  split
  · exact .along rfl ⟨rfl, rfl⟩ rfl
  · dsimp only
    split
    · refine unsolved_turn .cauchy ?_ hm _
      exact ⟨rfl, rfl⟩
    · exact .along (World.client_emit _ _ _ _ _) ⟨rfl, rfl⟩ hm

theorem subspace_turn (c : Option (CauchyPoint α n it.memory.size)) :
    Turn s ⟨.subspace it c, p, w⟩ (subspace s it c p w) := by
  cases c with
  | none => exact .toward rfl
  | some c =>
      simp only [subspace]
      split
      · exact unsolved_turn .subspace ⟨rfl, rfl⟩ rfl _
      · refine .toward ?_
        split
        · exact World.client_emit _ _ _ _ _
        · rfl

theorem evaluating_turn (m : Memory α n) : Turn s ⟨.evaluating m, p, w⟩ (evaluating s m p w) := by
  rw [evaluating]
  split
  · rename_i h
    exact .first h
  · rename_i h
    exact .firstFailed h
  · rename_i h
    exact .firstEscaped h

theorem inspect_ne_budget (c : Cap) : inspect s it ≠ .error (.budget c) := by
  have hfinite (name : String) (entries : List α) : Debug.checkFinite name entries ≠ .error (.budget c) := by
    rw [Debug.checkFinite]
    split <;> nofun
  have hadmissible : Debug.checkAdmissible it.memory ≠ .error (.budget c) := by
    rw [Debug.checkAdmissible, Debug.checkModel]
    split_ifs
    · nofun
    · nofun
    · split <;> nofun
  have halign : Checked.align (.ofVector it.point.x) (.ofVector it.point.x) s.bounds.lowers s.bounds.uppers ≠
      .error (.budget c) := by
    rw [Checked.align]
    refine bind_ne_error ?_ fun shape => ?_
    · rw [Fault.fitting]
      generalize Tensor.commonShapes? _ = shape
      cases shape <;> nofun
    · dsimp only
      split <;> nofun
  have hfeasible : s.bounds.checkFeasible (.ofVector it.point.x) (.single 0) ≠ .error (.budget c) := by
    rw [Bounds.checkFeasible]
    refine bind_ne_error (map_ne_error halign) fun p => ?_
    dsimp only
    split
    · nofun
    · split <;> nofun
  exact bind_ne_error hfeasible fun _ => bind_ne_error hadmissible fun _ => bind_ne_error (hfinite _ _) fun _ =>
    hfinite _ _

theorem record_shown {previous norm : α} {r : Except (Fault α) Unit} {p' : Progress α n} {w' : World α κ}
    (h : record s it previous norm p w = (r, p', w')) :
    Still p p' ∧ Shown s w w' ∧
      ∀ c, r = .error (.budget c) → ∃ f r w1, s.callback = some f ∧ (f r w1).1 = .error (.budget c) := by
  rw [record] at h
  split at h
  · rename_i why hwhy
    cases h
    refine ⟨⟨rfl, rfl, rfl⟩, .kept rfl, fun c hc => ?_⟩
    cases hc
    split at hwhy
    · exact absurd hwhy (inspect_ne_budget c)
    · cases hwhy
  · dsimp only at h
    split at h
    · cases h
      exact ⟨⟨rfl, rfl, rfl⟩, .kept (World.client_emit _ _ _ _ _), nofun⟩
    · rename_i f hf
      cases h
      exact ⟨⟨rfl, rfl, rfl⟩, .called hf (World.client_emit _ _ _ _ _), fun c hc => ⟨f, _, _, hf, hc⟩⟩

theorem reported_shown {r : Except (Fault α) Unit} {p' : Progress α n} {w' : World α κ}
    (h : reported s it p w = (r, p', w')) :
    Still p p' ∧ Shown s w w' ∧
      ∀ c, r = .error (.budget c) → ∃ f r w1, s.callback = some f ∧ (f r w1).1 = .error (.budget c) := by
  rw [reported] at h
  split at h
  · cases h
    exact ⟨⟨rfl, rfl, rfl⟩, .kept rfl, nofun⟩
  · exact record_shown h

theorem checking_eq : checking s it p w = judged s it (reported s it p w) := rfl

theorem checking_turn : Turn s ⟨.check it, p, w⟩ (checking s it p w) := by
  rw [checking_eq]
  cases h : reported s it p w with
  | mk r pw =>
      obtain ⟨p', w'⟩ := pw
      obtain ⟨hp, hw, hwhy⟩ := reported_shown h
      cases r with
      | error why => exact .unshown hp hw fun c hc => hwhy c (by rw [hc])
      | ok _ =>
          simp only [judged]
          split
          · rename_i hr
            exact .decided hp hw hr
          · rename_i hr
            exact .undecided hp hw hr

section

variable {e : Evaluator (Vector α n) α n} {found : Found α (Point α n)} {w1 w' : World α κ}

theorem rejected_turn (hd : falls s it d = true) (h : sought s it d p w = (.ok found, e, w1))
    (hnone : found.point = none) (hw : w'.client = w1.client) :
    Turn s ⟨.search it d, p, w⟩
      (rejected s it found.outcome { p with evaluator := e, outcome := some found.outcome } w') := by
  simp only [rejected]
  split
  · rename_i ho
    exact .spent hd h hnone ho ⟨rfl, rfl, rfl⟩ hw
  · split
    · rename_i hmany
      exact .lost hd h hnone ⟨rfl, rfl, rfl⟩ hmany hw
    · rename_i hfew
      refine .again hd h hnone ⟨rfl, rfl, rfl⟩ (not_le.mp hfew) ?_ ⟨rfl, rfl⟩ (Memory.isEmpty_clear _)
      exact (World.client_emit _ _ _ _ _).trans hw

theorem accepted_turn (hd : falls s it d = true) (h : sought s it d p w = (.ok found, e, w1)) {new : Point α n}
    (hnew : found.point = some new) (hw : w'.client = w1.client) :
    Turn s ⟨.search it d, p, w⟩
      (accepted s it found.outcome found.step new { p with evaluator := e, outcome := some found.outcome } w') := by
  obtain ⟨p1, w2, hnote, hstill, hw2⟩ : ∃ p1 w2,
      (if found.outcome = .converged then ({ p with evaluator := e, outcome := some found.outcome }, w')
        else note s (.warned found.outcome found.step) { p with evaluator := e, outcome := some found.outcome } w') =
        (p1, w2) ∧ Still { p with evaluator := e } p1 ∧ w2.client = w1.client := by
    split
    · exact ⟨_, _, rfl, ⟨rfl, rfl, rfl⟩, hw⟩
    · exact ⟨_, _, rfl, ⟨rfl, rfl, rfl⟩, (World.client_emit _ _ _ _ _).trans hw⟩
  obtain ⟨hevaluator, hiterations, -⟩ := hstill
  simp only [accepted, hnote]
  split
  · exact .accepted hd h hnew ⟨hevaluator, congrArg (· + 1) hiterations, rfl⟩ hw2
  · exact .accepted hd h hnew ⟨hevaluator, congrArg (· + 1) hiterations, rfl⟩ ((World.client_emit _ _ _ _ _).trans hw2)
  · exact .overfull hd h ⟨hevaluator, hiterations, rfl⟩ hw2

end

theorem searching_eq : searching s it d p w =
    if !(Vec.dot it.point.g d < 0 && Scalar.isFinite (Vec.dot it.point.g d)) then
      breakdown s it (.ascent (Vec.dot it.point.g d)) p w
    else if longestStep s it.point.x d ≤ 0 then breakdown s it .blocked p w
    else followed s it p (sought s it d p w) := rfl

theorem followed_turn (hd : falls s it d = true) : Turn s ⟨.search it d, p, w⟩ (followed s it p (sought s it d p w)) := by
  cases h : sought s it d p w with
  | mk r ew =>
      obtain ⟨e, w1⟩ := ew
      cases r with
      | error why => exact .thrown hd h
      | ok found =>
          simp only [followed]
          split
          · rename_i hf
            exact .failed hd h hf ⟨rfl, rfl, rfl⟩ (World.client_emit _ _ _ _ _)
          · rename_i hnone _
            exact rejected_turn hd h hnone (World.client_emit _ _ _ _ _)
          · rename_i hnew _
            exact accepted_turn hd h hnew (World.client_emit _ _ _ _ _)

theorem searching_turn : Turn s ⟨.search it d, p, w⟩ (searching s it d p w) := by
  rw [searching_eq]
  split
  · rename_i hslope
    have hd : falls s it d = false := by
      rw [falls, Bool.and_eq_false_iff]
      exact .inl (by simpa only [Bool.not_eq_true'] using hslope)
    exact breakdown_turn (.search hd) ⟨rfl, rfl⟩ rfl _
  · split
    · rename_i hroom
      exact breakdown_turn (.search (by simp [falls, hroom])) ⟨rfl, rfl⟩ rfl _
    · rename_i hslope hroom
      exact followed_turn (by simp_all [falls])

theorem step_turn (st : State α κ n) (h : st.phase.final = false) : Turn s st (step s st) := by
  obtain ⟨phase, p, w⟩ := st
  cases phase with
  | start m => exact .start (World.client_emit _ _ _ _ _)
  | evaluating m => exact evaluating_turn m
  | check it => exact checking_turn
  | cauchy it => exact cauchy_turn
  | subspace it c => exact subspace_turn c
  | search it d => exact searching_turn
  | ended | escaped => cases h

end Run

end BoxBfgs
