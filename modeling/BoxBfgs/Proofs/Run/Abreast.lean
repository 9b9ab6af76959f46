import BoxBfgs.Proofs.Run.Motion

namespace BoxBfgs

namespace Drift

variable {α : Type} [Scalar α] (δ : Drift α)

/-- What is answered, moved. The start that is given back where nothing was evaluated moves as well. -/
def answer : Answer α → Answer α
  | .rejected echo why => .rejected (δ.entries echo) why
  | .evaluated x f g status => .evaluated (δ.entries x) (δ.value f) g status
  | .unevaluated x status => .unevaluated (δ.entries x) status

def start : Start α → Start α
  | .array shape entries => .array shape (δ.entries entries)
  | .unreadable why => .unreadable why

@[simp] theorem answer_still (a : Answer α) : (still α).answer a = a := by
  cases a <;> rfl

@[simp] theorem start_still (x : Start α) : (still α).start x = x := by
  cases x <;> rfl

end Drift

namespace Run

variable {α κ : Type} [Scalar α] {n : Nat} {τ : Motion α n} {C : κ → κ → Prop} {d d' : Bool} {s s' : Setup α κ n}

/-- Whether the checks and the tests for the end say the same of an iterate before and after it was moved. -/
structure SameVerdict (τ : Motion α n) (d d' : Bool) (s s' : Setup α κ n) (it : Iterate α n) : Prop where
  inspected : (if d' then inspect s' (τ.iterate it) else .ok ()) = if d then inspect s it else .ok ()
  reason : ∀ norm p p', Even τ (alikeKept s s') p p' → reason? s' (τ.iterate it) norm p' = reason? s it norm p

theorem checking_level {it : Iterate α n} {p p' : Progress α n} {w w' : World α κ} (h : Moves τ C d d' s s')
    (hp : Even τ (alikeKept s s') p p') (hw : Beside C d d' w w') (hv : SameVerdict τ d d' s s' it) :
    Level τ C d d' (alikeKept s s') (checking s it p w) (checking s' (τ.iterate it) p' w') := by
  obtain ⟨hresult, hprogress, hworld⟩ := reported_level it h hp hw hv.inspected
  have hnorm : s'.bounds.projectedGradientNorm (τ.iterate it).point.x (τ.iterate it).point.g =
      s.bounds.projectedGradientNorm it.point.x it.point.g := h.norm _ _
  rw [checking_eq, checking_eq]
  generalize reported s it p w = r at *
  generalize reported s' (τ.iterate it) p' w' = r' at *
  obtain ⟨r, q, v⟩ := r
  obtain ⟨r', q', v'⟩ := r'
  dsimp only at hresult hprogress hworld
  subst hresult
  cases r' with
  | error why => exact ⟨rfl, hprogress, hworld⟩
  | ok _ =>
      simp only [judged, hnorm, hv.reason _ _ _ hprogress]
      split
      · exact ⟨rfl, hprogress, hworld⟩
      · exact ⟨rfl, hprogress, hworld⟩

theorem first_level (h : Moves τ C d d' s s') {m : Memory α n} {w w' : World α κ} (hw : Beside C d d' w w') :
    Level τ C d d' (alikeKept s s') (first s m w) (first s' m w') where
  phase := rfl
  progress :=
    { evaluator := congrArg (fun budget => ({ budget } : Evaluator (Vector α n) α n)) h.evaluations
      iterations := rfl, failures := rfl, resets := rfl, step := rfl, notes := rfl, outcome := rfl
      history := fun _ => rfl }
  world := hw

/-- Runs that start level and pass the same verdicts stay level. -/
theorem after_level (h : Moves τ C d d' s s') {m : Memory α n} {w w' : World α κ} (hw : Beside C d d' w w')
    (hv : ∀ k it, (after s m w k).phase = .check it → SameVerdict τ d d' s s' it) (k : Nat) :
    Level τ C d d' (alikeKept s s') (after s m w k) (after s' m w' k) := by
  induction k with
  | zero => exact first_level h hw
  | succ k ih =>
      rw [after_succ, after_succ]
      cases hit : (after s m w k).phase.iterate? with
      | none => exact step_level h ih hit
      | some it =>
          have hphase := Phase.iterate?_eq_some.mp hit
          have hverdict := hv k it hphase
          obtain ⟨hphase', hp, hworld⟩ := ih
          rw [hphase] at hphase'
          rw [step, step, hphase, hphase']
          exact checking_level h hp hworld hverdict

end Run

namespace Solver

variable {α κ : Type} [Scalar α] {n : Nat}

/-- What two minimisations have come to agrees, up to a motion of one of them. The histories are compared where `kept`
says so. -/
structure Agree (δ : Drift α) (C : κ → κ → Prop) (kept : Prop)
    (r r' : Except (Fault α) (Answer α) × Solver α κ × World α κ) : Prop where
  answer : r'.1 = r.1.map δ.answer
  iterations : r'.2.1.iterations = r.2.1.iterations
  evaluations : r'.2.1.evaluations = r.2.1.evaluations
  history : kept → r'.2.1.history = r.2.1.history.map δ.record
  client : C r.2.2.client r'.2.2.client

variable {δ : Drift α} {τ : Motion α n} {C : κ → κ → Prop} {d d' : Bool} {v v' : Solver α κ}
  {f f' : Objective α (World α κ)} {o o' : Options α} {b b' : Bounds α n} {x x' : Vector α n}

theorem chosen_motion (current : Option (Point α n)) (reason : Reason α) (e : Evaluator (Vector α n) α n) :
    chosen (current.map τ.evaluated) reason (τ.evaluator e) = (chosen current reason e).map τ.evaluated := by
  rw [chosen, chosen]
  split <;> rfl

theorem answer_motion (point : Option (Point α n)) (status : Status α) :
    answer (τ.point x) (point.map τ.evaluated) status = τ.answer (answer x point status) := by
  cases point with
  | none => exact congrArg (Answer.unevaluated · status) (τ.toList_point x)
  | some p => exact congrArg (Answer.evaluated · (τ.value p.f) p.g.toList status) (τ.toList_point p.x)

theorem closed_agree {kept : Prop} {saved saved' : Option Log.Saved} {st st' : State α κ n} (hx : x' = τ.point x)
    (h : Run.Level τ C d d' kept st st') :
    Agree τ.toDrift C kept (v.closed ⟨n, f, o, b, x⟩ saved st) (v'.closed ⟨n, f', o', b', x'⟩ saved' st') := by
  have hclient : C (v.closed ⟨n, f, o, b, x⟩ saved st).2.2.client
      (v'.closed ⟨n, f', o', b', x'⟩ saved' st').2.2.client := by
    rw [closed_client, closed_client]
    exact h.world.client
  obtain ⟨phase, p, w⟩ := st
  obtain ⟨phase', p', w'⟩ := st'
  obtain ⟨hphase, hp, -⟩ := h
  dsimp only at hphase hp
  subst hphase hx
  cases phase with
  | ended m c r =>
      have hcount : p'.evaluator.count = p.evaluator.count := by
        rw [hp.evaluator]
        rfl
      refine ⟨?_, hp.iterations, hcount, hp.history, hclient⟩
      simp only [closed, Motion.phase, hp.evaluator, hp.iterations, chosen_motion, answer_motion]
      rfl
  | escaped | start | evaluating | check | cauchy | subspace | search => exact ⟨rfl, rfl, rfl, hp.history, hclient⟩

/-- Problems that move along are solved alike, where all verdicts on the way are the same. -/
theorem solve_agree (h : Moves τ C d d' (v.toSetup ⟨n, f, o, b, x⟩) (v'.toSetup ⟨n, f', o', b', x'⟩))
    (hmemory : Memory.renew v'.memory n o'.depth = Memory.renew v.memory n o.depth)
    (hiterations : o'.iterations = o.iterations) {w w' : World α κ} (hw : Beside C d d' w w')
    (hv : ∀ k it, (v.trace ⟨n, f, o, b, x⟩ w k).phase = .check it →
      Run.SameVerdict τ d d' (v.toSetup ⟨n, f, o, b, x⟩) (v'.toSetup ⟨n, f', o', b', x'⟩) it) :
    Agree τ.toDrift C (o'.keepHistory.holds = o.keepHistory.holds) (v.solve ⟨n, f, o, b, x⟩ w)
      (v'.solve ⟨n, f', o', b', x'⟩ w') := by
  rw [solve_eq, solve_eq, final_eq_trace, final_eq_trace, trace, trace]
  dsimp only
  rw [hmemory, hiterations]
  exact closed_agree h.start (Run.after_level h hw.enter hv _)

theorem Agree.same {kept : Prop} {r r' : Except (Fault α) (Answer α) × Solver α κ × World α κ}
    (h : Agree (.still α) Eq kept r r') (hkept : kept) :
    r'.1 = r.1 ∧ r'.2.1.iterations = r.2.1.iterations ∧ r'.2.1.evaluations = r.2.1.evaluations ∧
      r'.2.1.history = r.2.1.history ∧ r'.2.2.client = r.2.2.client := by
  have hanswer : r.1.map (Drift.still α).answer = r.1 := by
    cases r.1 with
    | error why => rfl
    | ok a => exact congrArg Except.ok (Drift.answer_still a)
  have hhistory := h.history hkept
  rw [Drift.map_record_still] at hhistory
  exact ⟨h.answer.trans hanswer, h.iterations, h.evaluations, hhistory, h.client.symm⟩

/-- What is refused before a run is refused alike, and leaves the solvers as they are. -/
theorem refuse_agree {kept : Prop} {offer offer' : Offer α (World α κ)} {start : Start α}
    {options options' : Except (Fault α) (Options α)} {w w' : World α κ}
    (hv : Agree δ C kept (.error .reentered, v, w) (.error .reentered, v', w'))
    (hrun : w'.isRunning v'.id = w.isRunning v.id) {why : Fault α} (hp : prepare options offer start = .error why)
    (hp' : prepare options' offer' (δ.start start) = .error why) :
    Agree δ C kept (v.minimize offer start options w) (v'.minimize offer' (δ.start start) options' w') := by
  rw [minimize, minimize, hrun, hp, hp']
  split
  · exact hv
  · cases why with
    | invalid why =>
        cases start with
        | array shape entries => exact ⟨rfl, hv.iterations, hv.evaluations, hv.history, hv.client⟩
        | unreadable why' =>
            have hecho : (Except.ok (.rejected [] why) : Except (Fault α) (Answer α)) =
                (Except.ok (.rejected [] why)).map δ.answer := by
              rw [Except.map, Drift.answer, δ.entries_nil]
            cases why' with
            | large => exact ⟨rfl, hv.iterations, hv.evaluations, hv.history, hv.client⟩
            | _ => exact ⟨hecho, hv.iterations, hv.evaluations, hv.history, hv.client⟩
    | _ => exact ⟨rfl, hv.iterations, hv.evaluations, hv.history, hv.client⟩

/-- Calls agree where both are refused for the same reason, or both lead to problems that are solved alike. -/
theorem minimize_agree {kept : Prop} {offer offer' : Offer α (World α κ)} {start : Start α}
    {options options' : Except (Fault α) (Options α)} {w w' : World α κ}
    (hv : Agree δ C kept (.error .reentered, v, w) (.error .reentered, v', w'))
    (hrun : w'.isRunning v'.id = w.isRunning v.id)
    (h : (∃ why, prepare options offer start = .error why ∧ prepare options' offer' (δ.start start) = .error why) ∨
      ∃ p p', prepare options offer start = .ok p ∧ prepare options' offer' (δ.start start) = .ok p' ∧
        Agree δ C kept (v.solve p w) (v'.solve p' w')) :
    Agree δ C kept (v.minimize offer start options w) (v'.minimize offer' (δ.start start) options' w') := by
  rcases h with ⟨why, hp, hp'⟩ | ⟨p, p', hp, hp', hsolve⟩
  · exact refuse_agree hv hrun hp hp'
  · rw [minimize, minimize, hrun, hp, hp']
    split
    · exact hv
    · exact hsolve

end Solver

end BoxBfgs
