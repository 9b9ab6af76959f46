import BoxBfgs.Proofs.Search.Sound

namespace BoxBfgs.Wolfe

open BoxBfgs.Bracket

variable {φ : ℝ → ℝ} {s s' : Wolfe ℝ} {step longest c1 c2 tolerance x y : ℝ}

def OnCurve (φ : ℝ → ℝ) (t : Sample ℝ) : Prop := t.value = φ t.step ∧ t.slope = deriv φ t.step

/-- The curve with the line of sufficient decrease taken off. -/
noncomputable def excess (φ : ℝ → ℝ) (c1 a : ℝ) : ℝ := φ a - φ 0 - a * (c1 * deriv φ 0)

/-- The searches that are given the values and slopes of a curve, and have not ended. -/
inductive Fed (φ : ℝ → ℝ) (step longest c1 c2 tolerance : ℝ) : Wolfe ℝ → Prop where
  | start {s : Wolfe ℝ} (h : start (φ 0) (deriv φ 0) step longest c1 c2 tolerance 0 = .ok s) :
      Fed φ step longest c1 c2 tolerance s
  | update {s s' : Wolfe ℝ} (h : Fed φ step longest c1 c2 tolerance s)
      (hu : s.update (φ s.step) (deriv φ s.step) = (.ok none, s')) : Fed φ step longest c1 c2 tolerance s'

theorem exists_lt_of_slope_neg (hφ : Differentiable ℝ φ) (hslope : deriv φ x * (y - x) < 0) :
    ∃ a ∈ Set.uIcc x y, φ a < φ x := by
  by_contra hmin
  push Not at hmin
  have hlocal : IsLocalMinOn φ (Set.uIcc x y) x := IsMinOn.localize hmin
  have hcone : y - x ∈ posTangentConeAt (Set.uIcc x y) x :=
    sub_mem_posTangentConeAt_of_segment_subset (segment_eq_uIcc x y).subset
  have hnonneg := hlocal.hasFDerivWithinAt_nonneg (hφ x).hasDerivAt.hasFDerivAt.hasFDerivWithinAt hcone
  simp only [ContinuousLinearMap.toSpanSingleton_apply, smul_eq_mul] at hnonneg
  linarith

/-- A curve that falls from one end of an interval towards a higher other end has a minimum between them. -/
theorem exists_minimum_between (hφ : Differentiable ℝ φ) (hslope : deriv φ x * (y - x) < 0) (hle : φ x ≤ φ y) :
    ∃ a ∈ Set.Ioo (min x y) (max x y), deriv φ a = 0 ∧ φ a < φ x := by
  obtain ⟨z, hz, hlt⟩ := exists_lt_of_slope_neg hφ hslope
  obtain ⟨a, ha, hmin⟩ := isCompact_uIcc.exists_isMinOn ⟨z, hz⟩ hφ.continuous.continuousOn
  have hax : φ a < φ x := (hmin hz).trans_lt hlt
  have hnx : a ≠ x := fun he => absurd hax (he ▸ lt_irrefl _)
  have hny : a ≠ y := fun he => absurd (hax.trans_le hle) (he ▸ lt_irrefl _)
  have hin : a ∈ Set.Ioo (min x y) (max x y) := by
    refine ⟨lt_of_le_of_ne ha.1 fun he => ?_, lt_of_le_of_ne ha.2 fun he => ?_⟩
    · rcases min_choice x y with hm | hm
      · exact hnx (he.symm.trans hm)
      · exact hny (he.symm.trans hm)
    · rcases max_choice x y with hm | hm
      · exact hnx (he.trans hm)
      · exact hny (he.trans hm)
  have hlocal : IsLocalMin φ a := hmin.isLocalMin (Icc_mem_nhds hin.1 hin.2)
  exact ⟨a, hin, hlocal.deriv_eq_zero, hax⟩

theorem differentiable_excess (hφ : Differentiable ℝ φ) : Differentiable ℝ (excess φ c1) := by
  unfold excess
  fun_prop

theorem deriv_excess (hφ : Differentiable ℝ φ) (a : ℝ) : deriv (excess φ c1) a = deriv φ a - c1 * deriv φ 0 := by
  have h := (((hφ a).hasDerivAt.sub_const (φ 0)).sub ((hasDerivAt_id a).mul_const (c1 * deriv φ 0))).deriv
  rw [one_mul] at h
  exact h

theorem next_onCurve (hb : OnCurve φ s.bracket.best) (ho : OnCurve φ s.bracket.other) {t : Sample ℝ}
    (ht : OnCurve φ t) : OnCurve φ (s.next t).best ∧ OnCurve φ (s.next t).other := by
  rw [next, replace]
  split_ifs
  · exact ⟨hb, ht⟩
  · exact ⟨hb, ht⟩
  · exact ⟨ht, hb⟩
  · exact ⟨ht, ho⟩

namespace Fed

theorem sound (h : Fed φ step longest c1 c2 tolerance s) (hφ : deriv φ 0 < 0) (hc1 : 0 < c1) (hc : c1 < c2)
    (hc2 : c2 < 1) (htol : tolerance < 1) (hstep : 0 < step) (hle : step ≤ longest) :
    s.Sound ∧ s.c1 = c1 ∧ s.c2 = c2 ∧ OnCurve φ s.origin ∧ OnCurve φ s.bracket.best ∧ OnCurve φ s.bracket.other := by
  induction h with
  | start h =>
      refine ⟨start_sound hc1 hc hc2 htol hφ hstep hle h, ?_⟩
      rw [start_eq_ok hc1 hc hc2 hφ hstep.le hle] at h
      cases h
      exact ⟨rfl, rfl, ⟨rfl, rfl⟩, ⟨rfl, rfl⟩, ⟨rfl, rfl⟩⟩
  | update h hu ih =>
      obtain ⟨hs, h1, h2, horigin, hbest, hother⟩ := ih
      obtain ⟨hs', hsame, hnext⟩ := hs.update_sound hu
      obtain ⟨hb, ho⟩ := next_onCurve hbest hother (t := ⟨_, φ _, deriv φ _⟩) ⟨rfl, rfl⟩
      exact ⟨hs', hsame.c1.trans h1, hsame.c2.trans h2, hsame.origin ▸ horigin, hnext ▸ hb, hnext ▸ ho⟩

end Fed

section

variable (hφ : Differentiable ℝ φ) (hs : s.Sound) (horigin : OnCurve φ s.origin) (hbest : OnCurve φ s.bracket.best)
  (hother : OnCurve φ s.bracket.other)

include horigin

theorem excess_eq (a : ℝ) : excess φ s.c1 a = φ a - s.line a := by
  rw [excess, line, slopeTest, show s.value = φ 0 from horigin.1, show s.slope = deriv φ 0 from horigin.2, sub_sub]

include hs

theorem wolfe_of_deriv {a : ℝ} (hv : φ a ≤ s.line a) (hd : deriv φ a = 0 ∨ deriv φ a = s.c1 * deriv φ 0) :
    φ a ≤ φ 0 + s.c1 * a * deriv φ 0 ∧ |deriv φ a| ≤ s.c2 * |deriv φ 0| := by
  rw [line, slopeTest, show s.value = φ 0 from horigin.1, show s.slope = deriv φ 0 from horigin.2] at hv
  have hc2 := (hs.c1_pos.trans hs.c1_lt).le
  refine ⟨by linarith, ?_⟩
  rcases hd with hd | hd
  · rw [hd, abs_zero]
    exact mul_nonneg hc2 (abs_nonneg _)
  · rw [hd, abs_mul, abs_of_pos hs.c1_pos]
    exact mul_le_mul_of_nonneg_right hs.c1_lt.le (abs_nonneg _)

include hbest hother

theorem Descending.excess_lt (hd : s.Descending) :
    excess φ s.c1 s.bracket.best.step < excess φ s.c1 s.bracket.other.step := by
  rw [excess_eq horigin, excess_eq horigin, ← hbest.1, ← hother.1]
  rcases hd.worse with hw | hw
  · linarith [hd.line]
  · linarith [hs.line_le hd.ends.le]

include hφ

theorem Descending.exists_step (hd : s.Descending) : ∃ a ∈ Set.Ioo (min s.bracket.best.step s.bracket.other.step)
    (max s.bracket.best.step s.bracket.other.step),
      φ a ≤ φ 0 + s.c1 * a * deriv φ 0 ∧ |deriv φ a| ≤ s.c2 * |deriv φ 0| := by
  have hslope : deriv (excess φ s.c1) s.bracket.best.step * (s.bracket.other.step - s.bracket.best.step) < 0 := by
    have hlt := hs.best_slope_lt hd.tilted
    rw [deriv_excess hφ, ← hbest.2, ← show s.slope = deriv φ 0 from horigin.2]
    exact mul_neg_of_neg_of_pos (sub_neg.mpr hlt) (sub_pos.mpr hd.ends)
  obtain ⟨a, ha, hzero, hlt⟩ := exists_minimum_between (differentiable_excess hφ) hslope
    (hd.excess_lt hs horigin hbest hother).le
  refine ⟨a, ha, wolfe_of_deriv hs horigin ?_ (.inr ?_)⟩
  · rw [excess_eq horigin, excess_eq horigin, ← hbest.1] at hlt
    linarith [hd.line]
  · rwa [deriv_excess hφ, sub_eq_zero] at hzero

theorem Narrowing.exists_step (hn : s.Narrowing) : ∃ a ∈ Set.Ioo (min s.bracket.best.step s.bracket.other.step)
    (max s.bracket.best.step s.bracket.other.step),
      φ a ≤ φ 0 + s.c1 * a * deriv φ 0 ∧ |deriv φ a| ≤ s.c2 * |deriv φ 0| := by
  obtain ⟨a, ha, hzero, hlt⟩ := exists_minimum_between hφ (hbest.2 ▸ hn.downhill) (hbest.1 ▸ hother.1 ▸ hn.value_le)
  refine ⟨a, ha, wolfe_of_deriv hs horigin (hlt.le.trans ?_) (.inl hzero)⟩
  rw [← hbest.1]
  exact hs.best_below hn (hn.high ▸ ha.2.le)

end

/-- A search that has closed its bracket, and has not ended, has a step of sufficient decrease and small slope strictly
between the two ends. -/
theorem Fed.exists_wolfe_step (hφ : ContDiff ℝ 1 φ) (h0 : deriv φ 0 < 0) (hc1 : 0 < c1) (hc : c1 < c2) (hc2 : c2 < 1)
    (htol : tolerance < 1) (hstep : 0 < step) (hle : step ≤ longest) (h : Fed φ step longest c1 c2 tolerance s)
    (hclosed : s.bracket.closed = true) :
    let x := s.bracket.best.step
    let y := s.bracket.other.step
    excess φ c1 x ≤ 0 ∧ deriv φ x * (y - x) < 0 ∧
      (s.tilted = true → x < y ∧ excess φ c1 x < excess φ c1 y ∧ deriv φ x < c1 * deriv φ 0) ∧
      (s.tilted = false → φ x ≤ φ y) ∧
      ∃ a ∈ Set.Ioo (min x y) (max x y), φ a ≤ φ 0 + c1 * a * deriv φ 0 ∧ |deriv φ a| ≤ c2 * |deriv φ 0| := by
  intro x y
  have hdiff : Differentiable ℝ φ := hφ.differentiable one_ne_zero
  obtain ⟨hs, rfl, rfl, horigin, hbest, hother⟩ := h.sound h0 hc1 hc hc2 htol hstep hle
  have hexcess : excess φ s.c1 x ≤ 0 := by
    rw [excess_eq horigin, sub_nonpos, ← hbest.1]
    exact hs.best_line
  cases ht : s.tilted with
  | true =>
      have hd := hs.descending ht hclosed
      have hslope : deriv φ x < s.c1 * deriv φ 0 := by
        rw [← hbest.2, ← show s.slope = deriv φ 0 from horigin.2]
        exact hs.best_slope_lt ht
      have hneg : deriv φ x < 0 := hslope.trans (mul_neg_of_pos_of_neg hc1 h0)
      exact ⟨hexcess, mul_neg_of_neg_of_pos hneg (sub_pos.mpr hd.ends),
        fun _ => ⟨hd.ends, hd.excess_lt hs horigin hbest hother, hslope⟩, nofun,
        hd.exists_step hdiff hs horigin hbest hother⟩
  | false =>
      have hn := hs.narrowing ht
      exact ⟨hexcess, hbest.2 ▸ hn.downhill, nofun, fun _ => hbest.1 ▸ hother.1 ▸ hn.value_le,
        hn.exists_step hdiff hs horigin hbest hother⟩

noncomputable def parabola (a : ℝ) : ℝ := a ^ 2 - a

theorem deriv_parabola (a : ℝ) : deriv parabola a = 2 * a - 1 := by
  have h := (hasDerivAt_pow 2 a).sub (hasDerivAt_id a)
  rw [Nat.cast_ofNat, pow_one] at h
  exact h.deriv

theorem exists_wolfe_step_parabola : ∃ s, Fed parabola 2 4 (1 / 10) (1 / 2) (1 / 10) s ∧ s.bracket.closed = true ∧
    ∃ a ∈ Set.Ioo (min s.bracket.best.step s.bracket.other.step) (max s.bracket.best.step s.bracket.other.step),
      parabola a ≤ parabola 0 + 1 / 10 * a * deriv parabola 0 ∧ |deriv parabola a| ≤ 1 / 2 * |deriv parabola 0| := by
  have hdiff : ContDiff ℝ 1 parabola := by
    unfold parabola
    fun_prop
  have h0 : deriv parabola 0 < 0 := by norm_num [deriv_parabola]
  obtain ⟨s, hstart⟩ : ∃ s, start (parabola 0) (deriv parabola 0) 2 4 (1 / 10) (1 / 2) (1 / 10) 0 = .ok s :=
    ⟨_, start_eq_ok (by norm_num) (by norm_num) (by norm_num) h0 (by norm_num) (by norm_num)⟩
  have hfed : Fed parabola 2 4 (1 / 10) (1 / 2) (1 / 10) s := .start hstart
  have hs := (hfed.sound h0 (by norm_num) (by norm_num) (by norm_num) (by norm_num) (by norm_num) (by norm_num)).1
  have hout : (s.switched (parabola s.step) (deriv parabola s.step)).outcome? (parabola s.step)
      (deriv parabola s.step) = none := by
    rw [start_eq_ok (by norm_num) (by norm_num) (by norm_num) h0 (by norm_num) (by norm_num)] at hstart
    cases hstart
    norm_num [switched, outcome?, line, slopeTest, deriv_parabola, parabola]
  obtain ⟨p, hn, -⟩ := hs.narrowed_eq_ok (Goes.of_outcome hout).of_switched
  have hfed' := hfed.update (update_of_narrowed hout hn)
  have hclosed : ((s.switched (parabola s.step) (deriv parabola s.step)).moved
      (s.next ⟨s.step, parabola s.step, deriv parabola s.step⟩) p).bracket.closed = true := by
    rw [moved_bracket, next, if_pos]
    rw [start_eq_ok (by norm_num) (by norm_num) (by norm_num) h0 (by norm_num) (by norm_num)] at hstart
    cases hstart
    norm_num [line, slopeTest, deriv_parabola, parabola]
  exact ⟨_, hfed', hclosed, (hfed'.exists_wolfe_step hdiff h0 (by norm_num) (by norm_num) (by norm_num) (by norm_num)
    (by norm_num) (by norm_num) hclosed).2.2.2.2⟩

end BoxBfgs.Wolfe
