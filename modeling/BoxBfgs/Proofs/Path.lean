import BoxBfgs.Proofs.Box
import BoxBfgs.Cauchy

namespace BoxBfgs

namespace Leg

variable {l u : Limit ℝ} {x g : ℝ}

/-- How a coordinate moves down the gradient: not at all, without end, or up to the limit that it reaches. -/
inductive Course (l u : Limit ℝ) (x g : ℝ) : Leg ℝ → Prop where
  | still {stop : Limit ℝ} (h : ∀ t, 0 ≤ t → Limit.clamp l u (x - t * g) = x) (hstop : ∀ t, 0 < t → stop ≠ .fin t) :
      Course l u x g ⟨stop, 0⟩
  | away (hg : g ≠ 0) (h : ∀ t, 0 ≤ t → Limit.Between l u (x + t * -g)) : Course l u x g ⟨.posInf, -g⟩
  | bound {t : ℝ} (ht : 0 < t) (hg : g ≠ 0) (hlimit : (if -g > 0 then u else l) = .fin (x + t * -g))
      (h : Limit.Between l u (x + t * -g)) : Course l u x g ⟨.fin t, -g⟩

theorem of_blocked (h : (l.atMost x && -g ≤ 0) || (u.atLeast x && -g ≥ 0)) : of x g l u = ⟨.fin 0, 0⟩ := if_pos h

theorem course_up (hx : Limit.Between l u x) (hg : g < 0) (hu : ¬u.atLeast x = true) :
    Course l u x g (of x g l u) := by
  have hpos : 0 < -g := neg_pos.mpr hg
  cases u with
  | negInf => simp [Limit.Between] at hx
  | fin v =>
      have hlt : x < v := not_le.mp fun hle => hu (by simpa [Limit.atLeast] using hle)
      have hreach : x + (x - v) / g * -g = v := by
        rw [mul_neg, div_mul_cancel₀ _ hg.ne]
        ring
      have hof : of x g l (.fin v) = ⟨.fin ((x - v) / g), -g⟩ := by simp [of, hg, hg.not_ge, hlt]
      rw [hof]
      refine .bound (div_pos_of_neg_of_neg (sub_neg.mpr hlt) hg) hg.ne ?_ ?_
      · rw [if_pos hpos, hreach]
      · rw [hreach]
        exact ⟨Limit.atLeast_mono hx.1 hlt.le, by simp⟩
  | posInf =>
      have hof : of x g l .posInf = ⟨.posInf, -g⟩ := by simp [of, hg, hg.not_ge, Limit.finite?]
      rw [hof]
      refine .away hg.ne fun t ht => ⟨Limit.atLeast_mono hx.1 ?_, by simp⟩
      exact le_add_of_nonneg_right (mul_nonneg ht hpos.le)

theorem course_down (hx : Limit.Between l u x) (hg : 0 < g) (hl : ¬l.atMost x = true) :
    Course l u x g (of x g l u) := by
  have hneg : -g < 0 := neg_neg_of_pos hg
  cases l with
  | negInf =>
      have hof : of x g .negInf u = ⟨.posInf, -g⟩ := by simp [of, hg, hg.not_ge, hg.not_gt, Limit.finite?]
      rw [hof]
      refine .away hg.ne' fun t ht => ⟨by simp, Limit.atMost_mono hx.2 ?_⟩
      exact add_le_of_nonpos_right (mul_nonpos_of_nonneg_of_nonpos ht hneg.le)
  | fin v =>
      have hlt : v < x := not_le.mp fun hle => hl (by simpa [Limit.atMost] using hle)
      have hreach : x + (x - v) / g * -g = v := by
        rw [mul_neg, div_mul_cancel₀ _ hg.ne']
        ring
      have hof : of x g (.fin v) u = ⟨.fin ((x - v) / g), -g⟩ := by
        simp [of, hg, hg.not_ge, hg.not_gt, hlt]
      rw [hof]
      refine .bound (div_pos (sub_pos.mpr hlt) hg) hg.ne' ?_ ?_
      · rw [if_neg hneg.not_gt, hreach]
      · rw [hreach]
        exact ⟨by simp, Limit.atMost_mono hx.2 hlt.le⟩
  | posInf => simp [Limit.Between] at hx

theorem of_course (hx : Limit.Between l u x) : Course l u x g (of x g l u) := by
  have hzero (t : ℝ) (ht : 0 < t) : Limit.fin (0 : ℝ) ≠ .fin t := fun h => ht.ne (Limit.fin.inj h)
  rcases lt_trichotomy g 0 with hg | rfl | hg
  · by_cases hu : u.atLeast x = true
    · rw [of_blocked (by simp [hu, hg.le])]
      exact .still (fun t ht => Limit.clamp_of_ge hx hu (by nlinarith)) hzero
    · exact course_up hx hg hu
  · have hclamp (t : ℝ) (_ : 0 ≤ t) : Limit.clamp l u (x - t * 0) = x := by
      rw [mul_zero, sub_zero, Limit.clamp_of_between hx]
    by_cases hb : (l.atMost x && -(0 : ℝ) ≤ 0) || (u.atLeast x && -(0 : ℝ) ≥ 0)
    · rw [of_blocked hb]
      exact .still hclamp hzero
    · have hrest : of x 0 l u = ⟨.posInf, 0⟩ := by
        rw [of, if_neg hb]
        simp
      rw [hrest]
      exact .still hclamp fun t _ => nofun
  · by_cases hl : l.atMost x = true
    · rw [of_blocked (by simp [hl, hg.le])]
      exact .still (fun t ht => Limit.clamp_of_le hx hl (by nlinarith)) hzero
    · exact course_down hx hg hl

theorem speed_of_not_blocked (h : ¬((l.atMost x && -g ≤ 0) || (u.atLeast x && -g ≥ 0)) = true) :
    (of x g l u).speed = -g := by
  rw [of, if_neg h]
  split_ifs
  · cases u.finite? <;> rfl
  · cases l.finite? <;> rfl
  · rfl

theorem speed_of_starts (h : (of x g l u).starts = true) : (of x g l u).speed = -g := by
  refine speed_of_not_blocked fun hb => ?_
  rw [of_blocked hb] at h
  simp [starts, Limit.undercuts] at h

namespace Course

variable {leg : Leg ℝ} {t τ : ℝ}

theorem speed_of_not_starts (h : Course l u x g leg) (hs : leg.starts = false) : leg.speed = 0 := by
  cases h with
  | still => rfl
  | away => simp [starts, Limit.undercuts] at hs
  | bound ht => simp [starts, Limit.undercuts, ht.not_ge] at hs

theorem clamp_of_speed_eq_zero (h : Course l u x g leg) (hspeed : leg.speed = 0) (hτ : 0 ≤ τ) :
    Limit.clamp l u (x - τ * g) = x := by
  cases h with
  | still hclamp => exact hclamp τ hτ
  | away hg => exact absurd (neg_eq_zero.mp hspeed) hg
  | bound _ hg => exact absurd (neg_eq_zero.mp hspeed) hg

/-- Until it stops, a coordinate is where its speed brings it. -/
theorem clamp_of_le (hx : Limit.Between l u x) (h : Course l u x g leg) (hτ : 0 ≤ τ)
    (hstop : ∀ t, 0 < t → leg.stop = .fin t → τ ≤ t) : Limit.clamp l u (x - τ * g) = x + τ * leg.speed := by
  cases h with
  | still hclamp => rw [hclamp τ hτ, mul_zero, add_zero]
  | away hg haway => rw [sub_eq_add_neg, ← mul_neg, Limit.clamp_of_between (haway τ hτ)]
  | bound ht hg hlimit hbetween =>
      rw [sub_eq_add_neg, ← mul_neg, Limit.clamp_of_between (hx.along hbetween hτ (hstop _ ht rfl))]

/-- From the time when it stops on, a coordinate is at the limit that it has moved towards. -/
theorem clamp_of_ge (h : Course l u x g leg) (ht : 0 < t) (hstop : leg.stop = .fin t) (hle : t ≤ τ) :
    (if -g > 0 then u else l) = .fin (Limit.clamp l u (x - τ * g)) := by
  cases h with
  | still _ hno => exact absurd hstop (hno t ht)
  | away => cases hstop
  | bound _ _ hlimit hbetween =>
      cases hstop
      have hclamp : Limit.clamp l u (x - τ * g) = x + t * -g := by
        split_ifs at hlimit with hg
        · exact Limit.clamp_of_ge hbetween (by simp [hlimit]) (by nlinarith)
        · exact Limit.clamp_of_le hbetween (by simp [hlimit]) (by nlinarith)
      rw [hclamp, hlimit]

/-- A coordinate that has not stopped yet has room left. -/
theorem between_later (h : Course l u x g leg) (hspeed : leg.speed ≠ 0) (hτ : 0 ≤ τ) (hstop : leg.stop.undercuts τ = true) :
    ∃ t, τ < t ∧ Limit.Between l u (x + t * -g) := by
  cases h with
  | still => exact absurd rfl hspeed
  | away _ haway => exact ⟨τ + 1, lt_add_one τ, haway _ (by linarith)⟩
  | bound _ _ _ hbetween => exact ⟨_, by simpa [Limit.undercuts] using hstop, hbetween⟩

end Course

/-- A coordinate that does not start is at a limit. -/
theorem at_limit_of_not_starts (hx : Limit.Between l u x) (h : (of x g l u).starts = false) :
    l = .fin x ∨ u = .fin x := by
  by_cases hb : (l.atMost x && -g ≤ 0) || (u.atLeast x && -g ≥ 0)
  · simp only [Bool.or_eq_true, Bool.and_eq_true] at hb
    exact hb.imp (fun hl => Limit.eq_fin_of_atLeast_of_atMost hx.1 hl.1) fun hu =>
      Limit.eq_fin_of_atLeast_of_atMost hu.1 hx.2
  · have hg : g = 0 := neg_eq_zero.mp ((speed_of_not_blocked hb).symm.trans ((of_course hx).speed_of_not_starts h))
    subst hg
    rw [of, if_neg hb] at h
    simp [starts, Limit.undercuts] at h

end Leg

namespace Cauchy

variable {n : Nat} {legs : Vector (Leg ℝ) n}

theorem mem_breakpoints {t : ℝ} {i : Fin n} : (t, i) ∈ breakpoints legs ↔ 0 < t ∧ (legs.get i).stop = .fin t := by
  simp only [breakpoints, List.mem_mergeSort, List.mem_filterMap, List.mem_finRange, true_and, Option.map_eq_some_iff]
  constructor
  · rintro ⟨j, c, hc, heq⟩
    cases heq
    rw [Leg.breakpoint?, Leg.starts] at hc
    split_ifs at hc with hs
    rw [Limit.finite?_eq_some] at hc
    rw [hc] at hs
    exact ⟨by simpa [Limit.undercuts] using hs, hc⟩
  · rintro ⟨ht, hstop⟩
    refine ⟨i, t, ?_, rfl⟩
    simp [Leg.breakpoint?, Leg.starts, hstop, Limit.undercuts, ht]

theorem breakpoints_sorted : (breakpoints legs).Pairwise fun a b => a.1 ≤ b.1 := by
  have hle {a b : ℝ × Fin n} (h : earlier a b = true) : a.1 ≤ b.1 := by
    simp only [earlier, Bool.or_eq_true, decide_eq_true_eq, Bool.and_eq_true, beq_iff_eq] at h
    exact h.elim le_of_lt fun h => h.1.le
  refine (List.pairwise_mergeSort (fun a b c hab hbc => ?_) (fun a b => ?_) _).imp hle
  · simp only [earlier, Bool.or_eq_true, decide_eq_true_eq, Bool.and_eq_true, beq_iff_eq] at hab hbc ⊢
    rcases hab with hab | ⟨hab, hij⟩ <;> rcases hbc with hbc | ⟨hbc, hjk⟩
    · exact .inl (hab.trans hbc)
    · exact .inl (hab.trans_eq hbc)
    · exact .inl (hab.trans_lt hbc)
    · exact .inr ⟨hab.trans hbc, hij.trans hjk⟩
  · simp only [earlier, Bool.or_eq_true, decide_eq_true_eq, Bool.and_eq_true, beq_iff_eq]
    rcases lt_trichotomy a.1 b.1 with h | h | h
    · exact .inl (.inl h)
    · exact (le_total a.2 b.2).imp (fun hij => .inr ⟨h, hij⟩) fun hij => .inr ⟨h.symm, hij⟩
    · exact .inr (.inl h)

theorem breakpoints_nodup : ((breakpoints legs).map Prod.snd).Nodup := by
  refine ((List.mergeSort_perm _ _).map Prod.snd).nodup_iff.mpr ?_
  have hsub (l : List (Fin n)) :
      ((l.filterMap fun i => (legs.get i).breakpoint?.map fun t => (t, i)).map Prod.snd).Sublist l := by
    induction l with
    | nil => exact .slnil
    | cons i l ih =>
        cases h : (legs.get i).breakpoint? with
        | none => simpa [List.filterMap_cons, h] using ih.cons i
        | some t => simpa [List.filterMap_cons, h] using ih.cons_cons i
  exact (hsub _).nodup (List.nodup_finRange n)

end Cauchy

end BoxBfgs
