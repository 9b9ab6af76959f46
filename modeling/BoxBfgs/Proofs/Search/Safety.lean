import BoxBfgs.Proofs.Search.Sound

namespace BoxBfgs.Wolfe

open Relation

variable {s s' : Wolfe ℝ} {v g : ℝ}

/-- The search goes on to another with some value and slope at its step. -/
def Onward (s s' : Wolfe ℝ) : Prop := ∃ v g, s.update v g = (.ok none, s')

theorem interval_eq (s : Wolfe ℝ) : s.interval =
    (min s.bracket.best.step s.bracket.other.step, max s.bracket.best.step s.bracket.other.step) := by
  rw [interval, Scalar.least_real, Scalar.greatest_real]

theorem next_closed (hc : s.bracket.closed = true) (t : Sample ℝ) : (s.next t).closed = true := by
  simp only [next, Bracket.replace]
  split_ifs <;> first | rfl | exact hc

/-- A trial between the ends of a bracket becomes one of its ends, and an old end stays the other. -/
theorem next_ends {t : Sample ℝ} (h : t.step ∈ Set.uIcc s.bracket.best.step s.bracket.other.step) :
    Set.uIcc (s.next t).best.step (s.next t).other.step ⊆ Set.uIcc s.bracket.best.step s.bracket.other.step := by
  have hbest : s.bracket.best.step ∈ Set.uIcc s.bracket.best.step s.bracket.other.step := Set.left_mem_uIcc
  have hother : s.bracket.other.step ∈ Set.uIcc s.bracket.best.step s.bracket.other.step := Set.right_mem_uIcc
  simp only [next, Bracket.replace]
  split_ifs
  · exact Set.uIcc_subset_uIcc hbest h
  · exact Set.uIcc_subset_uIcc hbest h
  · exact Set.uIcc_subset_uIcc h hbest
  · exact Set.uIcc_subset_uIcc h hother

theorem Icc_interval (s : Wolfe ℝ) :
    Set.Icc s.interval.1 s.interval.2 = Set.uIcc s.bracket.best.step s.bracket.other.step := by
  rw [interval_eq, Set.uIcc]

namespace Sound

variable (h : s.Sound)

include h

theorem low_eq (hc : s.bracket.closed = true) : s.low = min s.bracket.best.step s.bracket.other.step := by
  rcases h.phase with he | hd | hn
  · exact absurd (he.closed.symm.trans hc) Bool.false_ne_true
  · rw [hd.low, min_eq_left hd.ends.le]
  · exact hn.low

theorem high_eq (hc : s.bracket.closed = true) : s.high = max s.bracket.best.step s.bracket.other.step := by
  rcases h.phase with he | hd | hn
  · exact absurd (he.closed.symm.trans hc) Bool.false_ne_true
  · rw [hd.high, max_eq_right hd.ends.le]
  · exact hn.high

/-- With any value and slope the search ends or goes on: no division by zero comes in between. -/
theorem update_eq_ok (v g : ℝ) : ∃ o, (s.update v g).1 = .ok o := by
  cases ho : (s.switched v g).outcome? v g with
  | some o => exact ⟨some o, by rw [update_eq, ho]⟩
  | none =>
      obtain ⟨p, hp, -⟩ := h.narrowed_eq_ok (Goes.of_outcome ho).of_switched
      exact ⟨none, congrArg Prod.fst (update_of_narrowed ho hp)⟩

/-- A search that comes back to the best step ends there. -/
theorem update_best (hc : s.bracket.closed = true) (hs : s.step = s.bracket.best.step) (v g : ℝ) :
    ∃ o, (s.update v g).1 = .ok (some o) := by
  obtain ⟨_ | o, ho⟩ := h.update_eq_ok v g
  · obtain ⟨hg, -⟩ := update_eq_none (Prod.ext ho rfl : s.update v g = (.ok none, (s.update v g).2))
    obtain ⟨hlow, hhigh⟩ := hg.of_switched.inside hc
    rw [h.low_eq hc, hs] at hlow
    rw [h.high_eq hc, hs] at hhigh
    rcases min_lt_iff.mp hlow with hlt | hlt
    · exact absurd hlt (lt_irrefl _)
    · rw [max_eq_left hlt.le] at hhigh
      exact absurd hhigh (lt_irrefl _)
  · exact ⟨o, ho⟩

theorem onward (ho : s.Onward s') : s'.Sound ∧ s'.greatest = s.greatest := by
  obtain ⟨v, g, hu⟩ := ho
  obtain ⟨hs, hsame, -⟩ := h.update_sound hu
  exact ⟨hs, hsame.greatest⟩

/-- A closed bracket stays closed and shrinks. -/
theorem onward_nested (hc : s.bracket.closed = true) (ho : s.Onward s') : s'.bracket.closed = true ∧
    Set.Icc s'.interval.1 s'.interval.2 ⊆ Set.Icc s.interval.1 s.interval.2 := by
  obtain ⟨v, g, hu⟩ := ho
  obtain ⟨-, -, hnext⟩ := h.update_sound hu
  obtain ⟨hg, -⟩ := update_eq_none hu
  obtain ⟨hlow, hhigh⟩ := hg.of_switched.inside hc
  rw [h.low_eq hc] at hlow
  rw [h.high_eq hc] at hhigh
  rw [Icc_interval, Icc_interval, hnext]
  exact ⟨next_closed hc _, next_ends ⟨hlow.le, hhigh.le⟩⟩

theorem reached (hr : ReflTransGen Onward s s') : s'.Sound ∧ s'.greatest = s.greatest := by
  induction hr with
  | refl => exact ⟨h, rfl⟩
  | tail _ ho ih =>
      obtain ⟨hs, hgreatest⟩ := ih.1.onward ho
      exact ⟨hs, hgreatest.trans ih.2⟩

theorem reached_nested (hc : s.bracket.closed = true) (hr : ReflTransGen Onward s s') :
    s'.bracket.closed = true ∧ Set.Icc s'.interval.1 s'.interval.2 ⊆ Set.Icc s.interval.1 s.interval.2 := by
  induction hr with
  | refl => exact ⟨hc, subset_rfl⟩
  | tail hr ho ih =>
      obtain ⟨hclosed, hsub⟩ := (h.reached hr).1.onward_nested ih.1 ho
      exact ⟨hclosed, hsub.trans ih.2⟩

end Sound

/-- The next trial is strictly inside a closed bracket, or the best step once more. -/
theorem Onward.inside (ho : s.Onward s') (hc : s'.bracket.closed = true) :
    s'.step = s'.bracket.best.step ∨ s'.step ∈ Set.Ioo s'.interval.1 s'.interval.2 := by
  obtain ⟨v, g, hu⟩ := ho
  obtain ⟨-, b, p, -, rfl⟩ := update_eq_none hu
  rw [moved_bracket] at hc
  rw [interval_eq, moved_bracket]
  exact moved_step hc

/-- Whatever values and slopes a search along a falling line is given, it divides nowhere by zero and its trials stay
between zero and the greatest step. Once the bracket is closed it only shrinks; a trial lies strictly inside it, or is
the best step so far, and then the search ends there. -/
theorem start_safe {value slope step greatest c1 c2 tolerance : ℝ} (hc1 : 0 < c1) (hc : c1 < c2) (hc2 : c2 < 1)
    (htol : tolerance < 1) (hslope : slope < 0) (hstep : 0 < step) (hle : step ≤ greatest) :
    ∃ s₀, start value slope step greatest c1 c2 tolerance 0 = .ok s₀ ∧ s₀.step = step ∧
      ∀ s, ReflTransGen Onward s₀ s →
        s.step ∈ Set.Icc 0 greatest ∧
        (∀ v g, ∃ o, (s.update v g).1 = .ok o) ∧
        (s.bracket.closed = true →
          (s.step = s.bracket.best.step ∨ s.step ∈ Set.Ioo s.interval.1 s.interval.2) ∧
          (s.step = s.bracket.best.step → ∀ v g, ∃ o, (s.update v g).1 = .ok (some o)) ∧
          ∀ s', ReflTransGen Onward s s' → s'.bracket.closed = true ∧
            Set.Icc s'.interval.1 s'.interval.2 ⊆ Set.Icc s.interval.1 s.interval.2) := by
  have hstart : start value slope step greatest c1 c2 tolerance 0 = .ok _ := start_eq_ok hc1 hc hc2 hslope hstep.le hle
  have hsound := start_sound hc1 hc hc2 htol hslope hstep hle hstart
  refine ⟨_, hstart, rfl, fun s hr => ?_⟩
  obtain ⟨hs, hgreatest⟩ := hsound.reached hr
  refine ⟨⟨hs.step_pos.le, hs.step_le.trans_eq hgreatest⟩, hs.update_eq_ok, fun hclosed => ?_⟩
  refine ⟨?_, hs.update_best hclosed, fun s' hr' => hs.reached_nested hclosed hr'⟩
  -- The bracket is open at the start, so an update has closed it.
  cases hr with
  | refl => exact absurd hclosed Bool.false_ne_true
  | tail _ ho => exact ho.inside hclosed

/-- A search whose first trial is higher than its start. -/
theorem start_safe_higher : ∃ s₀ s : Wolfe ℝ, start 0 (-1) 1 10 0.1 0.9 0.1 0 = .ok s₀ ∧ ReflTransGen Onward s₀ s ∧
    s.bracket.closed = true ∧ s.step ∈ Set.Icc 0 10 ∧
      (s.step = s.bracket.best.step ∨ s.step ∈ Set.Ioo s.interval.1 s.interval.2) ∧ ∃ o, (s.update 1 1).1 = .ok o := by
  have hc1 : (0 : ℝ) < 0.1 := by norm_num
  have hc : (0.1 : ℝ) < 0.9 := by norm_num
  have hc2 : (0.9 : ℝ) < 1 := by norm_num
  have hslope : (-1 : ℝ) < 0 := by norm_num
  have hle : (1 : ℝ) ≤ 10 := by norm_num
  obtain ⟨s₀, hstart, hout, hline⟩ : ∃ s : Wolfe ℝ, start 0 (-1) 1 10 0.1 0.9 0.1 0 = .ok s ∧
      (s.switched 1 1).outcome? 1 1 = none ∧ s.line s.step < 1 := by
    rw [start_eq_ok hc1 hc hc2 hslope zero_le_one hle]
    refine ⟨_, rfl, ?_, ?_⟩
    · norm_num [switched, outcome?, line, slopeTest]
    · norm_num [line, slopeTest]
  have hsound := start_sound hc1 hc hc2 (hc.trans hc2) hslope one_pos hle hstart
  obtain ⟨p, hn, -⟩ := hsound.narrowed_eq_ok (Goes.of_outcome hout).of_switched
  have hgo : ReflTransGen Onward s₀ ((s₀.switched 1 1).moved (s₀.next ⟨s₀.step, 1, 1⟩) p) :=
    .single ⟨1, 1, update_of_narrowed hout hn⟩
  have hclosed : ((s₀.switched 1 1).moved (s₀.next ⟨s₀.step, 1, 1⟩) p).bracket.closed = true := by
    rw [moved_bracket, next, if_pos hline]
  obtain ⟨s₁, hstart', -, hall⟩ := start_safe hc1 hc hc2 (hc.trans hc2) hslope one_pos hle
  cases hstart.symm.trans hstart'
  obtain ⟨hin, hok, hzoom⟩ := hall _ hgo
  exact ⟨_, _, hstart, hgo, hclosed, hin, (hzoom hclosed).1, hok 1 1⟩

end BoxBfgs.Wolfe
