import BoxBfgs.Proofs.Search.Safety

namespace BoxBfgs.Wolfe

open Relation

variable {s s' u : Wolfe ℝ} {b : Bracket ℝ} {t : Sample ℝ} {v g p : ℝ}

@[simp] theorem switched_width : (s.switched v g).width = s.width := by
  rw [switched]
  split_ifs <;> rfl

@[simp] theorem switched_widthBefore : (s.switched v g).widthBefore = s.widthBefore := by
  rw [switched]
  split_ifs <;> rfl

theorem moved_width (h : b.closed = true) : (s.moved b p).width = |b.other.step - b.best.step| := by
  simp [moved, h]

theorem moved_widthBefore (h : b.closed = true) : (s.moved b p).widthBefore = s.width := by
  simp [moved, h]

theorem moved_step_middle (h : b.closed = true) (hleast : s.least = 0)
    (hbest : b.best.step ∈ Set.Icc 0 s.greatest) (hother : b.other.step ∈ Set.Icc 0 s.greatest)
    (hwide : 0.66 * s.widthBefore ≤ |b.other.step - b.best.step|) :
    (s.moved b p).step = b.best.step ∨
      (s.moved b p).step = b.best.step + 0.5 * (b.other.step - b.best.step) := by
  have hin : b.best.step + 0.5 * (b.other.step - b.best.step) ∈ Set.Icc 0 s.greatest := by
    obtain ⟨hb0, hb1⟩ := hbest
    obtain ⟨ho0, ho1⟩ := hother
    norm_num
    constructor <;> linarith
  simp only [moved, h, if_true, Scalar.abs_real, ge_iff_le, if_pos hwide, hleast, Scalar.least_real,
    Scalar.greatest_real, max_eq_left hin.1, min_eq_left hin.2]
  split_ifs
  · exact .inl rfl
  · exact .inr rfl

theorem interval_width (s : Wolfe ℝ) :
    s.interval.2 - s.interval.1 = |s.bracket.other.step - s.bracket.best.step| := by
  rw [interval_eq, max_sub_min_eq_abs]

/-- The trial is one end of the bracket that it leaves, and the other end is an end of the bracket before it. -/
theorem next_width (s : Wolfe ℝ) (t : Sample ℝ) :
    |(s.next t).other.step - (s.next t).best.step| = |t.step - s.bracket.best.step| ∨
      |(s.next t).other.step - (s.next t).best.step| = |t.step - s.bracket.other.step| := by
  simp only [next, Bracket.replace]
  split_ifs
  · exact .inl rfl
  · exact .inl rfl
  · exact .inl (abs_sub_comm _ _)
  · exact .inr (abs_sub_comm _ _)

theorem next_width_lt (hlow : min s.bracket.best.step s.bracket.other.step < t.step)
    (hhigh : t.step < max s.bracket.best.step s.bracket.other.step) :
    |(s.next t).other.step - (s.next t).best.step| < |s.bracket.other.step - s.bracket.best.step| := by
  have hends : |t.step - s.bracket.best.step| < |s.bracket.other.step - s.bracket.best.step| ∧
      |t.step - s.bracket.other.step| < |s.bracket.other.step - s.bracket.best.step| := by
    rcases le_total s.bracket.best.step s.bracket.other.step with hle | hle
    · rw [min_eq_left hle] at hlow
      rw [max_eq_right hle] at hhigh
      rw [abs_of_pos (sub_pos.mpr hlow), abs_of_neg (sub_neg.mpr hhigh), abs_of_nonneg (sub_nonneg.mpr hle)]
      constructor <;> linarith
    · rw [min_eq_right hle] at hlow
      rw [max_eq_left hle] at hhigh
      rw [abs_of_neg (sub_neg.mpr hhigh), abs_of_pos (sub_pos.mpr hlow), abs_of_nonpos (sub_nonpos.mpr hle)]
      constructor <;> linarith
  rcases next_width s t with he | he
  · exact he.trans_lt hends.1
  · exact he.trans_lt hends.2

theorem next_width_middle (h : t.step = s.bracket.best.step + 0.5 * (s.bracket.other.step - s.bracket.best.step)) :
    |(s.next t).other.step - (s.next t).best.step| = 0.5 * |s.bracket.other.step - s.bracket.best.step| := by
  have hhalf : |(0.5 : ℝ)| = 0.5 := abs_of_pos (by norm_num)
  rcases next_width s t with he | he
  · rw [he, h, add_sub_cancel_left, abs_mul, hhalf]
  · have hrest : t.step - s.bracket.other.step = -(0.5 * (s.bracket.other.step - s.bracket.best.step)) := by
      rw [h]
      norm_num
      ring
    rw [he, hrest, abs_neg, abs_mul, hhalf]

/-- The widths kept are that of the bracket and that of the bracket before it. -/
theorem Onward.widths (ho : s.Onward s') (hc : s'.bracket.closed = true) :
    s'.width = |s'.bracket.other.step - s'.bracket.best.step| ∧ s'.widthBefore = s.width := by
  obtain ⟨v, g, hu⟩ := ho
  obtain ⟨-, b, p, -, rfl⟩ := update_eq_none hu
  rw [moved_bracket] at hc
  rw [moved_bracket, moved_width hc, moved_widthBefore hc, switched_width]
  exact ⟨rfl, rfl⟩

namespace Sound

variable (h : s.Sound)

include h

theorem width_lt (hc : s.bracket.closed = true) (ho : s.Onward s') :
    |s'.bracket.other.step - s'.bracket.best.step| < |s.bracket.other.step - s.bracket.best.step| := by
  obtain ⟨v, g, hu⟩ := ho
  obtain ⟨hg, -⟩ := update_eq_none hu
  obtain ⟨hlow, hhigh⟩ := hg.of_switched.inside hc
  rw [h.low_eq hc] at hlow
  rw [h.high_eq hc] at hhigh
  obtain ⟨-, -, hnext⟩ := h.update_sound hu
  rw [hnext]
  exact next_width_lt hlow hhigh

/-- A bracket that is still wide after a trial is cut in half by the next one. -/
theorem width_halved (ho : s.Onward s') (hc : s'.bracket.closed = true)
    (hwide : 0.66 * s.widthBefore ≤ |s'.bracket.other.step - s'.bracket.best.step|) (ho' : s'.Onward u) :
    |u.bracket.other.step - u.bracket.best.step| = 0.5 * |s'.bracket.other.step - s'.bracket.best.step| := by
  have hs' := (h.onward ho).1
  have hmiddle : s'.step = s'.bracket.best.step ∨
      s'.step = s'.bracket.best.step + 0.5 * (s'.bracket.other.step - s'.bracket.best.step) := by
    obtain ⟨v, g, hu⟩ := ho
    have hsame := switched_sameLine s v g
    have hgreatest := (h.onward ⟨v, g, hu⟩).2
    obtain ⟨-, b, p, -, rfl⟩ := update_eq_none hu
    have hbest := hs'.best_nonneg
    have hbestle := hs'.best_le
    have hother := hs'.other_nonneg
    have hotherle := hs'.other_le
    rw [hgreatest] at hbestle hotherle
    rw [moved_bracket] at hc hwide hbest hbestle hother hotherle ⊢
    rw [← hsame.greatest] at hbestle hotherle
    refine moved_step_middle hc (hsame.least.trans h.least) ⟨hbest, hbestle⟩ ⟨hother, hotherle⟩ ?_
    rwa [switched_widthBefore]
  obtain ⟨v, g, hu⟩ := ho'
  rcases hmiddle with hstep | hstep
  · -- A trial of the best step once more would have ended the search.
    obtain ⟨o, hend⟩ := hs'.update_best hc hstep v g
    rw [hu] at hend
    cases hend
  · obtain ⟨-, -, hnext⟩ := hs'.update_sound hu
    rw [hnext]
    exact next_width_middle hstep

end Sound

/-- Once the bracket of a search along a falling line is closed, each trial that does not end the search leaves it
narrower, and three of them leave at most 0.66 times its width. -/
theorem start_contracts {value slope step greatest c1 c2 tolerance : ℝ} {s₀ : Wolfe ℝ} (hc1 : 0 < c1) (hc : c1 < c2)
    (hc2 : c2 < 1) (htol : tolerance < 1) (hslope : slope < 0) (hstep : 0 < step) (hle : step ≤ greatest)
    (hstart : start value slope step greatest c1 c2 tolerance 0 = .ok s₀) (hr : ReflTransGen Onward s₀ s)
    (hclosed : s.bracket.closed = true) :
    (∀ s₁, s.Onward s₁ → s₁.bracket.closed = true ∧
      s₁.interval.2 - s₁.interval.1 < s.interval.2 - s.interval.1) ∧
    ∀ s₁ s₂ s₃, s.Onward s₁ → s₁.Onward s₂ → s₂.Onward s₃ →
      s₃.interval.2 - s₃.interval.1 ≤ 0.66 * (s.interval.2 - s.interval.1) := by
  have hs := ((start_sound hc1 hc hc2 htol hslope hstep hle hstart).reached hr).1
  simp only [interval_width]
  refine ⟨fun s₁ h₁ => ⟨(hs.onward_nested hclosed h₁).1, hs.width_lt hclosed h₁⟩, fun s₁ s₂ s₃ h₁ h₂ h₃ => ?_⟩
  have hs₁ := (hs.onward h₁).1
  have hclosed₁ := (hs.onward_nested hclosed h₁).1
  have hs₂ := (hs₁.onward h₂).1
  have hclosed₂ := (hs₁.onward_nested hclosed₁ h₂).1
  have hlt₁ := hs.width_lt hclosed h₁
  have hlt₂ := hs₁.width_lt hclosed₁ h₂
  have hlt₃ := hs₂.width_lt hclosed₂ h₃
  -- The bracket is open at the start, so an update has closed it and kept its width.
  have hwidth : s₁.widthBefore = |s.bracket.other.step - s.bracket.best.step| := by
    rw [(h₁.widths hclosed₁).2]
    cases hr with
    | refl =>
        rw [start_eq_ok hc1 hc hc2 hslope hstep.le hle] at hstart
        cases hstart
        exact absurd hclosed Bool.false_ne_true
    | tail _ ho => exact (ho.widths hclosed).1
  by_cases hwide : 0.66 * s₁.widthBefore ≤ |s₂.bracket.other.step - s₂.bracket.best.step|
  · rw [hs₁.width_halved h₂ hclosed₂ hwide h₃]
    norm_num
    linarith
  · rw [hwidth] at hwide
    exact hlt₃.le.trans (not_le.mp hwide).le

theorem outcome_higher (hv : s.line s.step < v) (hleast : s.step ≠ s.least)
    (hin : s.bracket.closed = true →
      s.low < s.step ∧ s.step < s.high ∧ s.tolerance * s.high < s.high - s.low) : s.outcome? v g = none := by
  simp only [outcome?, tooNarrow]
  cases hc : s.bracket.closed with
  | false => simp [not_le.mpr hv, hleast]
  | true =>
      obtain ⟨hlow, hhigh, hwide⟩ := hin hc
      simp [not_le.mpr hv, hleast, not_le.mpr hlow, not_le.mpr hhigh, not_le.mpr hwide]

/-- A search that is never content with a part of the bracket goes on as long as each trial is higher than the start. -/
theorem Sound.onward_higher (h : s.Sound) (htol : s.tolerance = 0) (hbest : s.bracket.best = s.origin)
    (hin : s.bracket.closed = true → s.step < s.bracket.other.step) :
    ∃ s', s.Onward s' ∧ s'.Sound ∧ s'.tolerance = 0 ∧ s'.bracket.best = s'.origin ∧ s'.bracket.closed = true ∧
      s'.step < s'.bracket.other.step := by
  have hzero : s.bracket.best.step = 0 := by
    rw [hbest]
    rfl
  have hv : s.line s.step < s.value + 1 := by
    have := h.line_le h.step_pos.le
    simp only [line, zero_mul, add_zero] at this ⊢
    linarith
  have hswitched := switched_sameLine s (s.value + 1) 0
  have hout : (s.switched (s.value + 1) 0).outcome? (s.value + 1) 0 = none := by
    refine outcome_higher ?_ ?_ ?_
    · rwa [hswitched.line, switched_step]
    · rw [switched_step, hswitched.least, h.least]
      exact h.step_pos.ne'
    · rw [switched_bracket, switched_low, switched_high, switched_step, hswitched.tolerance, htol]
      intro hc
      have hlt := h.step_pos.trans (hin hc)
      rw [h.low_eq hc, h.high_eq hc, hzero, min_eq_left hlt.le, max_eq_right hlt.le, zero_mul, sub_zero]
      exact ⟨h.step_pos, hin hc, hlt⟩
  obtain ⟨p, hn, hp, -⟩ := h.narrowed_eq_ok (Goes.of_outcome hout).of_switched
  obtain ⟨hp0, hp1⟩ := hp (.inl hv) (hzero.trans_lt h.step_pos)
  rw [hzero] at hp0
  have hu := update_of_narrowed hout hn
  obtain ⟨hs', hsame, -⟩ := h.update_sound hu
  rw [next, if_pos hv] at hu hs' hsame
  have hpos := moved_step_pos_of_origin (s := s.switched (s.value + 1) 0) (p := p)
    (b := { best := s.bracket.best, other := ⟨s.step, s.value + 1, 0⟩, closed := true }) rfl hzero h.step_pos
    (hswitched.greatest ▸ h.step_le) (hswitched.least.trans h.least) (by rw [hswitched.tolerance, htol]; exact one_pos)
    hp0 hp1
  refine ⟨_, ⟨_, _, hu⟩, hs', hsame.tolerance.trans htol, ?_, ?_, ?_⟩
  · rw [moved_bracket, hsame.origin]
    exact hbest
  · rw [moved_bracket]
  · rw [moved_bracket]
    rcases moved_step (s := s.switched (s.value + 1) 0) (p := p)
      (b := { best := s.bracket.best, other := ⟨s.step, s.value + 1, 0⟩, closed := true }) rfl with he | ⟨-, hlt⟩
    · exact absurd (he.trans hzero) hpos.ne'
    · rwa [hzero, max_eq_right h.step_pos.le] at hlt

/-- A search all of whose trials are higher than its start. -/
theorem start_contracts_higher : ∃ s₀ s s₁ s₂ s₃ : Wolfe ℝ, start 0 (-1) 1 10 0.1 0.9 0 0 = .ok s₀ ∧
    ReflTransGen Onward s₀ s ∧ s.bracket.closed = true ∧ s.Onward s₁ ∧ s₁.Onward s₂ ∧ s₂.Onward s₃ ∧
      s₃.interval.2 - s₃.interval.1 ≤ 0.66 * (s.interval.2 - s.interval.1) := by
  have hc1 : (0 : ℝ) < 0.1 := by norm_num
  have hc : (0.1 : ℝ) < 0.9 := by norm_num
  have hc2 : (0.9 : ℝ) < 1 := by norm_num
  have hslope : (-1 : ℝ) < 0 := by norm_num
  have hle : (1 : ℝ) ≤ 10 := by norm_num
  obtain ⟨s₀, hstart, htol₀, hbest₀, hopen⟩ : ∃ s : Wolfe ℝ, start 0 (-1) 1 10 0.1 0.9 0 0 = .ok s ∧
      s.tolerance = 0 ∧ s.bracket.best = s.origin ∧ s.bracket.closed = false := by
    rw [start_eq_ok hc1 hc hc2 hslope zero_le_one hle]
    exact ⟨_, rfl, rfl, rfl, rfl⟩
  have hs₀ := start_sound hc1 hc hc2 zero_lt_one hslope one_pos hle hstart
  obtain ⟨s, h₀, hs, htol, hbest, hclosed, hin⟩ := hs₀.onward_higher htol₀ hbest₀ fun h => by simp [hopen] at h
  obtain ⟨s₁, h₁, hs₁, htol₁, hbest₁, -, hin₁⟩ := hs.onward_higher htol hbest fun _ => hin
  obtain ⟨s₂, h₂, hs₂, htol₂, hbest₂, -, hin₂⟩ := hs₁.onward_higher htol₁ hbest₁ fun _ => hin₁
  obtain ⟨s₃, h₃, -⟩ := hs₂.onward_higher htol₂ hbest₂ fun _ => hin₂
  have hall := start_contracts hc1 hc hc2 zero_lt_one hslope one_pos hle hstart (.single h₀) hclosed
  exact ⟨s₀, s, s₁, s₂, s₃, hstart, .single h₀, hclosed, h₁, h₂, h₃, hall.2 s₁ s₂ s₃ h₁ h₂ h₃⟩

end BoxBfgs.Wolfe
