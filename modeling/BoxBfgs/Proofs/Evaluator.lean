import BoxBfgs.Proofs.Basic
import BoxBfgs.Evaluator

namespace BoxBfgs

/-- An objective that never claims that the evaluations are used up. -/
def Objective.Quiet {α σ : Type} (f : Objective α σ) : Prop := ∀ x w c, (f.call x w).1 ≠ .fault (.budget c)

namespace Evaluator

variable {X α σ : Type} [Scalar α] {n : Nat} {e e' : Evaluator X α n} {o : Objective α σ} {view : X → Tensor α} {x : X}
  {w w' : σ}

/-- What a call does: it is refused, or it is counted, whatever comes of it. -/
inductive Called (e : Evaluator X α n) (o : Objective α σ) (view : X → Tensor α) (x : X) (w : σ) :
    Except (Fault α) (Evaluated X α n) × Evaluator X α n × σ → Prop
  | refused (hout : e.exhausted = true) : Called e o view x w (.error (.budget e.budget), e, w)
  | answered {f : α} {g : Tensor α} {p : Evaluated X α n} {w' : σ} (hleft : e.exhausted = false)
      (hreply : o.call (view x) w = (.answer (f, g), w')) (hp : e.check (e.count + 1) x f g = .ok p) :
      Called e o view x w (.ok p, { e with count := e.count + 1, best := better e.best p }, w')
  | failed {r : Reply α (α × Tensor α)} {why : Fault α} {w' : σ} (hleft : e.exhausted = false)
      (hreply : o.call (view x) w = (r, w'))
      (hbad : ∀ f g, r = .answer (f, g) → ∀ p, e.check (e.count + 1) x f g ≠ .ok p)
      (hbudget : ∀ c, why = .budget c → r = .fault (.budget c)) :
      Called e o view x w (.error why, { e with count := e.count + 1 }, w')

theorem check_ne_budget {k : Nat} {f : α} {g : Tensor α} (c : Cap) : e.check k x f g ≠ .error (.budget c) := by
  intro h
  rw [check] at h
  split at h
  · cases h
  · split at h <;> cases h

theorem call_called : Called e o view x w (e.call o view x w) := by
  rw [call]
  split
  · rename_i hout
    exact .refused hout
  · rename_i hleft
    rw [Bool.not_eq_true] at hleft
    dsimp only
    split
    · rename_i hreply
      split
      · rename_i hp
        exact .answered hleft hreply hp
      · rename_i hp
        refine .failed hleft hreply (fun f g hr p hok => ?_) fun c hc => ?_
        · cases hr
          cases hp.symm.trans hok
        · cases hc
          exact absurd hp (check_ne_budget c)
    · rename_i hreply
      exact .failed hleft hreply nofun nofun
    · rename_i hreply
      exact .failed hleft hreply nofun nofun
    · rename_i hreply
      refine .failed hleft hreply nofun fun c hc => ?_
      rw [hc]

theorem check_x {k : Nat} {f : α} {g : Tensor α} {p : Evaluated X α n} (h : e.check k x f g = .ok p) : p.x = x := by
  rw [check] at h
  split at h
  · cases h
  · split at h
    · cases h
      rfl
    · cases h

theorem check_f {k : Nat} {f : α} {g : Tensor α} {p : Evaluated X α n} (h : e.check k x f g = .ok p) : p.f = f := by
  rw [check] at h
  split at h
  · cases h
  · split at h
    · cases h
      rfl
    · cases h

theorem call_x {p : Evaluated X α n} (h : e.call o view x w = (.ok p, e', w')) : p.x = x := by
  rw [call] at h
  split at h
  · cases h
  · dsimp only at h
    split at h
    · split at h
      · rename_i hp
        cases h
        exact check_x hp
      · cases h
    · cases h
    · cases h
    · cases h

theorem attempt_answered {d : Vector α n} {p : Evaluated X α n} {v g : α}
    (h : e.attempt o view d x w = (.answered p v g, e', w')) : p.x = x ∧ p.f = v := by
  rw [attempt] at h
  split at h
  · rename_i hp
    cases h
    exact ⟨call_x hp, rfl⟩
  · cases h
  · cases h
  · cases h

theorem better_x {R : X → Prop} {best : Option (Evaluated X α n)} {p : Evaluated X α n} (h : ∀ q, best = some q → R q.x)
    (hp : R p.x) : ∀ q, better best p = some q → R q.x := by
  intro q hq
  cases best with
  | none =>
      cases hq
      exact hp
  | some b =>
      simp only [better] at hq
      split_ifs at hq
      · cases hq
        exact hp
      · exact h q hq

/-- A call keeps what is known of the best point, if the point it asks for is known as well. -/
theorem call_best {R : X → Prop} (h : ∀ q, e.best = some q → R q.x) (hx : R x) :
    ∀ q, (e.call o view x w).2.1.best = some q → R q.x := by
  rw [call]
  split
  · exact h
  · dsimp only
    split
    · split
      · rename_i hp
        exact better_x h (check_x hp ▸ hx)
      · exact h
    · exact h
    · exact h
    · exact h

theorem attempt_snd (d : Vector α n) : (e.attempt o view d x w).2 = (e.call o view x w).2 := by
  rw [attempt]
  split <;> simp_all

theorem call_count (h : ∀ c, (e.call o view x w).1 ≠ .error (.budget c)) :
    (e.call o view x w).2.1.count = e.count + 1 := by
  have hcalled : Called e o view x w (e.call o view x w) := call_called
  generalize e.call o view x w = r at hcalled h
  cases hcalled with
  | refused => exact absurd rfl (h _)
  | answered | failed => rfl

theorem call_count_le : (e.call o view x w).2.1.count ≤ e.count + 1 := by
  have hcalled : Called e o view x w (e.call o view x w) := call_called
  generalize e.call o view x w = r at hcalled
  cases hcalled with
  | refused => exact Nat.le_succ _
  | answered | failed => exact le_rfl

theorem le_call_count : e.count ≤ (e.call o view x w).2.1.count := by
  have hcalled : Called e o view x w (e.call o view x w) := call_called
  generalize e.call o view x w = r at hcalled
  cases hcalled with
  | refused => exact le_rfl
  | answered | failed => exact Nat.le_succ _

theorem call_budget : (e.call o view x w).2.1.budget = e.budget := by
  have hcalled : Called e o view x w (e.call o view x w) := call_called
  generalize e.call o view x w = r at hcalled
  cases hcalled <;> rfl

theorem call_expected : (e.call o view x w).2.1.expected = e.expected := by
  have hcalled : Called e o view x w (e.call o view x w) := call_called
  generalize e.call o view x w = r at hcalled
  cases hcalled <;> rfl

/-- Of an objective that does not claim it itself, a call that is refused has changed nothing. -/
theorem call_refused (ho : o.Quiet) {c : Cap} (h : (e.call o view x w).1 = .error (.budget c)) :
    e.exhausted = true ∧ (e.call o view x w).2 = (e, w) := by
  have hcalled : Called e o view x w (e.call o view x w) := call_called
  generalize e.call o view x w = r at hcalled h
  cases hcalled with
  | refused hout => exact ⟨hout, rfl⟩
  | answered => cases h
  | failed _ hreply _ hbudget =>
      have hr := hbudget c (Except.error.inj h)
      rw [hr] at hreply
      exact absurd (congrArg Prod.fst hreply) (ho _ _ _)

theorem attempt_eq_answered {d : Vector α n} {p : Evaluated X α n} {v g : α} {r : Evaluator X α n × σ}
    (h : e.attempt o view d x w = (.answered p v g, r)) : e.call o view x w = (.ok p, r) := by
  rw [attempt] at h
  split at h
  · rename_i hcall
    cases h
    exact hcall
  · cases h
  · cases h
  · cases h

theorem attempt_eq_failed {d : Vector α n} {why : Failure} {r : Evaluator X α n × σ}
    (h : e.attempt o view d x w = (.failed why, r)) : e.call o view x w = (.error (.failure why), r) := by
  rw [attempt] at h
  split at h
  · cases h
  · rename_i hcall
    cases h
    exact hcall
  · cases h
  · cases h

theorem attempt_refused (ho : o.Quiet) {d : Vector α n} {c : Cap} {r : Evaluator X α n × σ}
    (h : e.attempt o view d x w = (.refused c, r)) : e.exhausted = true ∧ r = (e, w) := by
  rw [attempt] at h
  split at h
  · cases h
  · cases h
  · rename_i hcall
    cases h
    have hrefused := call_refused ho (congrArg Prod.fst hcall)
    rwa [hcall] at hrefused
  · cases h

theorem attempt_eq_escaped {d : Vector α n} {why : Fault α} (h : e.attempt o view d x w = (.escaped why, e', w')) :
    ∀ c, why ≠ .budget c := by
  rw [attempt] at h
  split at h
  · cases h
  · cases h
  · cases h
  · rename_i hbudget _
    cases h
    exact hbudget

theorem attempt_count {d : Vector α n} {a : Attempt α (Evaluated X α n)} (h : e.attempt o view d x w = (a, e', w'))
    (ha : ∀ c, a ≠ .refused c) : e'.count = e.count + 1 := by
  have hcount : (e.call o view x w).2.1.count = e.count + 1 := by
    refine call_count fun c hc => ?_
    rw [attempt] at h
    generalize e.call o view x w = r at h hc
    obtain ⟨r, e1, w1⟩ := r
    cases hc
    cases h
    exact ha c rfl
  rwa [← attempt_snd d, h] at hcount

/-- Of an objective a call only sees what it does at the point. -/
theorem call_congr {f : Objective α σ} (h : f.call (view x) w = o.call (view x) w) :
    e.call f view x w = e.call o view x w := by
  rw [call, call, h]

theorem attempt_congr {f : Objective α σ} (h : f.call (view x) w = o.call (view x) w) (d : Vector α n) :
    e.attempt f view d x w = e.attempt o view d x w := by
  rw [attempt, attempt, call_congr h]

section

variable {e : Evaluator X ℝ n} {o : Objective ℝ σ} {view : X → Tensor ℝ}

theorem check_ofVector (he : e.expected = .whole n) (k : Nat) (x : X) (f : ℝ) (g : Vector ℝ n) :
    e.check k x f (.ofVector g) = .ok { x, f, g } := by
  simp [check, he, Value.isWhole, Tensor.vector?_ofVector]

theorem call_of_answer (he : e.expected = .whole n) (hbudget : e.exhausted = false) {f : ℝ} {g : Vector ℝ n}
    (h : o.call (view x) w = (.answer (f, .ofVector g), w')) :
    e.call o view x w =
      (.ok { x, f, g }, { e with count := e.count + 1, best := better e.best { x, f, g } }, w') := by
  simp [call, hbudget, h, check_ofVector he]

end

end Evaluator

end BoxBfgs
