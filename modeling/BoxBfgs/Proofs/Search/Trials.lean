import BoxBfgs.Proofs.Evaluator

namespace BoxBfgs

namespace Wolfe

variable {α : Type} [Scalar α] {s s' : Wolfe α} {v g : α} {o : Outcome}

theorem outcome_answered (h : s.outcome? v g = some o) : o ≠ .objectiveFailed ∧ o ≠ .budgetExhausted := by
  simp only [outcome?] at h
  split_ifs at h <;> cases h <;> exact ⟨nofun, nofun⟩

/-- A search that has an answer to its trial does not end for want of one. -/
theorem update_answered (h : s.update v g = (.ok (some o), s')) : o ≠ .objectiveFailed ∧ o ≠ .budgetExhausted := by
  simp only [update] at h
  split at h
  · rename_i ho
    cases h
    exact outcome_answered ho
  · split at h <;> cases h

end Wolfe

namespace Line

variable {α P τ : Type} [Scalar α] {evaluate : α → τ → Attempt α P × τ} {cap : Cap} {fuel count : Nat} {s : Wolfe α}
  {kept : Option (Kept α P)} {found : Found α P} {w w' : τ} {r : Except (Fault α) (Found α P) × τ}

/-- How the loop of a search comes to its end, one trial after the other. -/
inductive Ends (evaluate : α → τ → Attempt α P × τ) :
    Nat → Wolfe α → Option (Kept α P) → Nat → τ → Except (Fault α) (Found α P) × τ → Prop
  | spent {s : Wolfe α} {kept : Option (Kept α P)} {count : Nat} {w : τ} :
      Ends evaluate 0 s kept count w (.ok (finish kept count .tooManyEvaluations none), w)
  | failed {fuel : Nat} {s : Wolfe α} {kept : Option (Kept α P)} {count : Nat} {w w' : τ} {why : Failure}
      (h : evaluate s.step w = (.failed why, w')) :
      Ends evaluate (fuel + 1) s kept count w
        (.ok { finish kept (count + 1) .objectiveFailed (some (.failure why)) with point := none }, w')
  | refused {fuel : Nat} {s : Wolfe α} {kept : Option (Kept α P)} {count : Nat} {w w' : τ} {limit : Cap}
      (h : evaluate s.step w = (.refused limit, w')) :
      Ends evaluate (fuel + 1) s kept count w (.ok (finish kept count .budgetExhausted (some (.budget limit))), w')
  | escaped {fuel : Nat} {s : Wolfe α} {kept : Option (Kept α P)} {count : Nat} {w w' : τ} {why : Fault α}
      (h : evaluate s.step w = (.escaped why, w')) : Ends evaluate (fuel + 1) s kept count w (.error why, w')
  | undefined {fuel : Nat} {s : Wolfe α} {kept : Option (Kept α P)} {count : Nat} {w w' : τ} {p : P} {v g : α}
      {why : Arithmetic} (h : evaluate s.step w = (.answered p v g, w')) :
      Ends evaluate (fuel + 1) s kept count w (.error (.arithmetic why), w')
  | converged {fuel : Nat} {s : Wolfe α} {kept : Option (Kept α P)} {count : Nat} {w w' : τ} {p : P} {v g : α}
      (h : evaluate s.step w = (.answered p v g, w')) :
      Ends evaluate (fuel + 1) s kept count w
        (.ok { step := s.step, point := some p, evaluations := count + 1, outcome := .converged }, w')
  | stopped {fuel : Nat} {s : Wolfe α} {kept : Option (Kept α P)} {count : Nat} {w w' : τ} {p : P} {v g : α}
      {outcome : Outcome} (h : evaluate s.step w = (.answered p v g, w')) (ho : outcome ≠ .budgetExhausted) :
      Ends evaluate (fuel + 1) s kept count w (.ok (finish (keep s kept s.step p v) (count + 1) outcome none), w')
  | next {fuel : Nat} {s s' : Wolfe α} {kept : Option (Kept α P)} {count : Nat} {w w' : τ} {p : P} {v g : α}
      {r : Except (Fault α) (Found α P) × τ} (h : evaluate s.step w = (.answered p v g, w'))
      (hrest : Ends evaluate fuel s' (keep s kept s.step p v) (count + 1) w' r) :
      Ends evaluate (fuel + 1) s kept count w r

theorem loop_ends : Ends evaluate fuel s kept count w (loop evaluate cap fuel s kept count w) := by
  induction fuel generalizing s kept count w with
  | zero => exact .spent
  | succ fuel ih =>
      rw [loop]
      split
      · rename_i h
        exact .failed h
      · rename_i h
        exact .refused h
      · rename_i h
        exact .escaped h
      · rename_i h
        dsimp only
        split
        · exact .undefined h
        · exact .converged h
        · rename_i ho
          exact .stopped h (Wolfe.update_answered ho).2
        · split_ifs
          · exact .stopped h Outcome.noConfusion
          · exact .next h ih

namespace Ends

variable {J : τ → Prop} {c : τ → Nat}

theorem world (hev : ∀ {t w a w'}, evaluate t w = (a, w') → J w → J w') (h : Ends evaluate fuel s kept count w r)
    (hw : J w) : J r.2 := by
  induction h with
  | spent => exact hw
  | failed h | refused h | escaped h | undefined h | converged h | stopped h => exact hev h hw
  | next h _ ih => exact ih (hev h hw)

/-- Where a trial adds one to a count at most, the search adds its rounds at most. -/
theorem le_add (hev : ∀ {t w a w'}, evaluate t w = (a, w') → c w' ≤ c w + 1)
    (h : Ends evaluate fuel s kept count w r) : c r.2 ≤ c w + fuel := by
  induction h with
  | spent => exact le_rfl
  | failed h | refused h | escaped h | undefined h | converged h | stopped h => exact (hev h).trans (by omega)
  | next h _ ih => exact (ih.trans (Nat.add_le_add_right (hev h) _)).trans (by omega)

theorem finish_evaluations {outcome : Outcome} {fault : Option (Fault α)} :
    (finish kept count outcome fault).evaluations = count := by
  cases kept <;> rfl

theorem finish_outcome {outcome : Outcome} {fault : Option (Fault α)} :
    (finish kept count outcome fault).outcome = outcome := by
  cases kept <;> rfl

theorem finish_fault {outcome : Outcome} {fault : Option (Fault α)} :
    (finish kept count outcome fault).fault = fault := by
  cases kept <;> rfl

/-- A search that comes to a result counts its trials as they count themselves, those that were refused apart. -/
theorem evaluations_add (hev : ∀ {t w a w'}, evaluate t w = (a, w') → (∀ limit, a ≠ .refused limit) → c w' = c w + 1)
    (hrefused : ∀ {t w limit w'}, evaluate t w = (.refused limit, w') → c w' = c w)
    (h : Ends evaluate fuel s kept count w r) (hr : r.1 = .ok found) : found.evaluations + c w = count + c r.2 := by
  induction h with
  | spent =>
      cases hr
      rw [finish_evaluations]
  | failed h =>
      cases hr
      have hc := hev h nofun
      simp only [finish_evaluations]
      omega
  | refused h =>
      cases hr
      rw [finish_evaluations, hrefused h]
  | escaped | undefined => cases hr
  | converged h =>
      cases hr
      have hc := hev h nofun
      dsimp only
      omega
  | stopped h =>
      cases hr
      have hc := hev h nofun
      simp only [finish_evaluations]
      omega
  | next h _ ih =>
      have hc := hev h nofun
      have hrest := ih hr
      omega

/-- The point of a result was the answer to a trial. -/
theorem point_seen {R : P → τ → Prop} (hev : ∀ {t w p v g w'}, evaluate t w = (.answered p v g, w') → R p w')
    (hmono : ∀ {t w a w' p}, evaluate t w = (a, w') → R p w → R p w') (h : Ends evaluate fuel s kept count w r)
    (hkept : ∀ k, kept = some k → R k.point w) (hr : r.1 = .ok found) {p : P} (hp : found.point = some p) :
    R p r.2 := by
  have hfinish {kept : Option (Kept α P)} {count : Nat} {outcome : Outcome} {fault : Option (Fault α)} {w : τ}
      (hkept : ∀ k, kept = some k → R k.point w) (hp : (finish kept count outcome fault).point = some p) : R p w := by
    cases kept with
    | none => cases hp
    | some k =>
        cases hp
        exact hkept k rfl
  have hkeep {s : Wolfe α} {kept : Option (Kept α P)} {w w' : τ} {q : P} {v g : α}
      (h : evaluate s.step w = (.answered q v g, w')) (hkept : ∀ k, kept = some k → R k.point w) :
      ∀ k, keep s kept s.step q v = some k → R k.point w' := by
    intro k hk
    simp only [keep] at hk
    split_ifs at hk
    · cases hk
      exact hev h
    · exact hmono h (hkept k hk)
  induction h with
  | spent =>
      cases hr
      exact hfinish hkept hp
  | failed =>
      cases hr
      cases hp
  | refused h =>
      cases hr
      exact hmono h (hfinish hkept hp)
  | escaped | undefined => cases hr
  | converged h =>
      cases hr
      cases hp
      exact hev h
  | stopped h =>
      cases hr
      exact hfinish (hkeep h hkept) hp
  | next h _ ih => exact ih (hkeep h hkept) hr

/-- A search that finds a point has counted a trial, unless one from before was kept. -/
theorem point_counted (hanswered : ∀ {t w p v g w'}, evaluate t w = (.answered p v g, w') → c w < c w')
    (hle : ∀ {t w a w'}, evaluate t w = (a, w') → c w ≤ c w') (h : Ends evaluate fuel s kept count w r)
    (hr : r.1 = .ok found) {p : P} (hp : found.point = some p) : kept.isSome = true ∨ c w < c r.2 := by
  have hfinish {kept : Option (Kept α P)} {count : Nat} {outcome : Outcome} {fault : Option (Fault α)}
      (hp : (finish kept count outcome fault).point = some p) : kept.isSome = true := by
    cases kept with
    | none => cases hp
    | some k => rfl
  cases h with
  | spent | refused =>
      cases hr
      exact .inl (hfinish hp)
  | failed =>
      cases hr
      cases hp
  | escaped | undefined => cases hr
  | converged h | stopped h => exact .inr (hanswered h)
  | @next _ _ _ _ _ _ w' _ _ _ _ h hrest =>
      have hrise : c w' ≤ c r.2 := hrest.world (J := fun w => c w' ≤ c w) (fun he hw => hw.trans (hle he)) le_rfl
      exact .inr ((hanswered h).trans_le hrise)

/-- A search that reports a failure ends with the trial that failed. -/
theorem failed_last (h : Ends evaluate fuel s kept count w r) (hr : r.1 = .ok found) {why : Failure}
    (hf : found.fault = some (.failure why)) : ∃ t w0, evaluate t w0 = (.failed why, r.2) := by
  induction h with
  | spent =>
      cases hr
      rw [finish_fault] at hf
      cases hf
  | failed h =>
      cases hr
      rw [finish_fault] at hf
      cases hf
      exact ⟨_, _, h⟩
  | refused =>
      cases hr
      rw [finish_fault] at hf
      cases hf
  | escaped | undefined => cases hr
  | converged =>
      cases hr
      cases hf
  | stopped =>
      cases hr
      rw [finish_fault] at hf
      cases hf
  | next _ _ ih => exact ih hr

/-- A search that reports an exhausted budget ends with the trial that was refused. -/
theorem refused_last (h : Ends evaluate fuel s kept count w r) (hr : r.1 = .ok found)
    (ho : found.outcome = .budgetExhausted) : ∃ t w0 limit, evaluate t w0 = (.refused limit, r.2) := by
  induction h with
  | spent =>
      cases hr
      rw [finish_outcome] at ho
      cases ho
  | failed =>
      cases hr
      rw [finish_outcome] at ho
      cases ho
  | refused h => exact ⟨_, _, _, h⟩
  | escaped | undefined => cases hr
  | converged =>
      cases hr
      cases ho
  | stopped _ hne =>
      cases hr
      rw [finish_outcome] at ho
      exact absurd ho hne
  | next _ _ ih => exact ih hr

/-- What escapes from a search escapes from a trial, or from the computation of the next step. -/
theorem escaped_last (h : Ends evaluate fuel s kept count w r) {why : Fault α} (hr : r.1 = .error why) :
    (∃ t w0, evaluate t w0 = (.escaped why, r.2)) ∨ ∃ a, why = .arithmetic a := by
  induction h with
  | spent | failed | refused | converged | stopped => cases hr
  | escaped h =>
      cases hr
      exact .inl ⟨_, _, h⟩
  | undefined =>
      cases hr
      exact .inr ⟨_, rfl⟩
  | next _ _ ih => exact ih hr

end Ends

/-- A search ends as its loop does, if it comes to the loop at all. -/
theorem search_ends (evaluate : α → τ → Attempt α P × τ) (o : LineOptions α) (value slope step longest : α) (w : τ) :
    (∃ why, search evaluate o value slope step longest w = (.error (.unmet (.search why)), w)) ∨
      ∃ s, Ends evaluate (max 1 o.evaluations.rounds) s none 0 w (search evaluate o value slope step longest w) := by
  rw [search]
  split
  · exact .inl ⟨_, rfl⟩
  · exact .inr ⟨_, loop_ends⟩

/-- A search leaves the world as its trials do. -/
theorem search_world {J : τ → Prop} (hev : ∀ t w, J w → J (evaluate t w).2) (o : LineOptions α)
    (value slope step longest : α) {w : τ} (hw : J w) : J (search evaluate o value slope step longest w).2 := by
  rcases search_ends evaluate o value slope step longest w with ⟨why, h⟩ | ⟨s, h⟩
  · rwa [h]
  · refine h.world (fun {t w a w'} he hw => ?_) hw
    have hnext := hev t w hw
    rwa [he] at hnext

section

variable {σ : Type} {evaluate' : α → σ → Attempt α P × σ} {f : τ → σ}

/-- Where a trial cannot tell a world from what is seen of it, a search cannot. -/
theorem loop_map (hev : ∀ t w, evaluate' t (f w) = ((evaluate t w).1, f (evaluate t w).2)) (cap : Cap) (fuel : Nat)
    (s : Wolfe α) (kept : Option (Kept α P)) (count : Nat) (w : τ) :
    loop evaluate' cap fuel s kept count (f w) =
      ((loop evaluate cap fuel s kept count w).1, f (loop evaluate cap fuel s kept count w).2) := by
  induction fuel generalizing s kept count w with
  | zero => rfl
  | succ fuel ih =>
      rw [loop, loop, hev]
      cases he : evaluate s.step w with
      | mk a w' =>
          cases a with
          | failed why | refused limit | escaped why => rfl
          | answered p v g =>
              dsimp only
              rcases s.update v g with ⟨_ | (_ | outcome), s'⟩
              · rfl
              · dsimp only
                split
                · rfl
                · exact ih _ _ _ _
              · cases outcome <;> rfl

theorem search_map (hev : ∀ t w, evaluate' t (f w) = ((evaluate t w).1, f (evaluate t w).2)) (o : LineOptions α)
    (value slope step longest : α) (w : τ) :
    search evaluate' o value slope step longest (f w) =
      ((search evaluate o value slope step longest w).1, f (search evaluate o value slope step longest w).2) := by
  rw [search, search]
  split
  · rfl
  · exact loop_map hev _ _ _ _ _ _

end

end Line

end BoxBfgs
