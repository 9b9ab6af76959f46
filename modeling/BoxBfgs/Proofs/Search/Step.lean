import BoxBfgs.Proofs.Search.Bracket
import BoxBfgs.Search.Wolfe

namespace BoxBfgs.Wolfe

open BoxBfgs.Bracket

variable {s s' : Wolfe ℝ} {b : Bracket ℝ} {t : Sample ℝ} {v g p : ℝ}

def origin (s : Wolfe ℝ) : Sample ℝ := ⟨0, s.value, s.slope⟩

/-- The search that goes on with the function itself once a trial has sufficient decrease and does not fall. -/
noncomputable def switched (s : Wolfe ℝ) (v g : ℝ) : Wolfe ℝ :=
  if s.tilted && v ≤ s.line s.step && g ≥ 0 then { s with tilted := false } else s

/-- What a trial makes of the bracket: without sufficient decrease it is never the best step. -/
noncomputable def next (s : Wolfe ℝ) (t : Sample ℝ) : Bracket ℝ :=
  if s.line t.step < t.value then { best := s.bracket.best, other := t, closed := true } else s.bracket.replace t

/-- Two searches along the same line with the same options. -/
structure SameLine (s s' : Wolfe ℝ) : Prop where
  c1 : s'.c1 = s.c1
  c2 : s'.c2 = s.c2
  tolerance : s'.tolerance = s.tolerance
  least : s'.least = s.least
  greatest : s'.greatest = s.greatest
  value : s'.value = s.value
  slope : s'.slope = s.slope

namespace SameLine

theorem symm (h : SameLine s s') : SameLine s' s :=
  ⟨h.c1.symm, h.c2.symm, h.tolerance.symm, h.least.symm, h.greatest.symm, h.value.symm, h.slope.symm⟩

theorem trans {u : Wolfe ℝ} (h : SameLine s s') (h' : SameLine s' u) : SameLine s u :=
  ⟨h'.c1.trans h.c1, h'.c2.trans h.c2, h'.tolerance.trans h.tolerance, h'.least.trans h.least,
    h'.greatest.trans h.greatest, h'.value.trans h.value, h'.slope.trans h.slope⟩

theorem slopeTest (h : SameLine s s') : s'.slopeTest = s.slopeTest := by
  rw [Wolfe.slopeTest, Wolfe.slopeTest, h.c1, h.slope]

theorem line (h : SameLine s s') : s'.line = s.line := by
  funext a
  rw [Wolfe.line, Wolfe.line, h.value, h.slopeTest]

theorem origin (h : SameLine s s') : s'.origin = s.origin := by
  rw [Wolfe.origin, Wolfe.origin, h.value, h.slope]

end SameLine

theorem switched_sameLine (s : Wolfe ℝ) (v g : ℝ) : SameLine s (s.switched v g) := by
  rw [switched]
  split_ifs <;> exact ⟨rfl, rfl, rfl, rfl, rfl, rfl, rfl⟩

@[simp] theorem switched_bracket : (s.switched v g).bracket = s.bracket := by
  rw [switched]
  split_ifs <;> rfl

@[simp] theorem switched_step : (s.switched v g).step = s.step := by
  rw [switched]
  split_ifs <;> rfl

@[simp] theorem switched_low : (s.switched v g).low = s.low := by
  rw [switched]
  split_ifs <;> rfl

@[simp] theorem switched_high : (s.switched v g).high = s.high := by
  rw [switched]
  split_ifs <;> rfl

theorem switched_tilted : (s.switched v g).tilted = true ↔ s.tilted = true ∧ (v ≤ s.line s.step → g < 0) := by
  rw [switched]
  by_cases h : s.tilted = true
  · by_cases hv : v ≤ s.line s.step
    · by_cases hg : g < 0
      · simp [h, hv, hg, not_le.mpr hg]
      · simp [h, hv, hg, not_lt.mp hg]
    · simp [h, hv]
  · simp [h]

theorem switched_tilted_of_false (h : s.tilted = false) : (s.switched v g).tilted = false := by
  rw [← Bool.not_eq_true, switched_tilted, h]
  exact fun hs => Bool.false_ne_true hs.1

theorem moved_sameLine (s : Wolfe ℝ) (b : Bracket ℝ) (p : ℝ) : SameLine s (s.moved b p) := by
  simp only [moved]
  split_ifs <;> exact ⟨rfl, rfl, rfl, rfl, rfl, rfl, rfl⟩

@[simp] theorem moved_bracket : (s.moved b p).bracket = b := by
  simp only [moved]
  split_ifs <;> rfl

@[simp] theorem moved_tilted : (s.moved b p).tilted = s.tilted := by
  simp only [moved]
  split_ifs <;> rfl

theorem moved_low (h : b.closed = true) : (s.moved b p).low = min b.best.step b.other.step := by
  simp [moved, h]

theorem moved_high (h : b.closed = true) : (s.moved b p).high = max b.best.step b.other.step := by
  simp [moved, h]

theorem moved_step (h : b.closed = true) : (s.moved b p).step = b.best.step ∨
    (min b.best.step b.other.step < (s.moved b p).step ∧ (s.moved b p).step < max b.best.step b.other.step) := by
  simp only [moved, h, if_true, Scalar.least_real, Scalar.greatest_real]
  split_ifs with hcut hout hout
  · exact .inl rfl
  · simp only [Bool.or_eq_true, decide_eq_true_eq, not_or, not_le] at hout
    exact .inr hout.1
  · exact .inl rfl
  · simp only [Bool.or_eq_true, decide_eq_true_eq, not_or, not_le] at hout
    exact .inr hout.1

theorem moved_step_le {x : ℝ} (h : b.closed = true) (hbest : b.best.step ≤ x) (hother : b.other.step ≤ x) :
    (s.moved b p).step ≤ x := by
  rcases moved_step h with he | ⟨-, hlt⟩
  · exact he.le.trans hbest
  · exact hlt.le.trans (max_le hbest hother)

theorem moved_step_pos (h : b.closed = true) (hbest : 0 < b.best.step) (hother : 0 ≤ b.other.step) :
    0 < (s.moved b p).step := by
  rcases moved_step h with he | ⟨hlt, -⟩
  · exact hbest.trans_eq he.symm
  · exact (le_min hbest.le hother).trans_lt hlt

theorem moved_step_pos_of_origin (h : b.closed = true) (hbest : b.best.step = 0) (hother : 0 < b.other.step)
    (hle : b.other.step ≤ s.greatest) (hleast : s.least = 0) (htol : s.tolerance < 1) (hp : 0 < p)
    (hpo : p < b.other.step) : 0 < (s.moved b p).step := by
  have htrial (c : Prop) [Decidable c] : 0 < (if c then b.best.step + 0.5 * (b.other.step - b.best.step) else p) ∧
      (if c then b.best.step + 0.5 * (b.other.step - b.best.step) else p) < b.other.step := by
    split_ifs
    · rw [hbest]
      norm_num
      constructor <;> linarith
    · exact ⟨hp, hpo⟩
  obtain ⟨hpos, hlt⟩ := htrial (Scalar.abs (b.other.step - b.best.step) ≥ 0.66 * s.widthBefore)
  have hwide : ¬b.other.step - 0 ≤ s.tolerance * b.other.step := by nlinarith
  simp only [moved, h, if_true, Scalar.least_real, Scalar.greatest_real, hleast, max_eq_left hpos.le,
    min_eq_left (hlt.le.trans hle)]
  rw [if_neg]
  · exact hpos
  · simp only [tooNarrow, hbest, min_eq_left hother.le, max_eq_right hother.le, Bool.or_eq_true, decide_eq_true_eq]
    rw [hbest] at hpos hlt
    exact not_or.mpr ⟨not_or.mpr ⟨not_le.mpr hpos, not_le.mpr hlt⟩, hwide⟩

theorem moved_open (h : b.closed = false) (hleast : s.least = 0) (hbest : 0 ≤ b.best.step) (hp : b.best.step < p)
    (hg : b.best.step < s.greatest) :
    b.best.step < (s.moved b p).step ∧ (s.moved b p).step ≤ s.greatest ∧
      (s.moved b p).step < (s.moved b p).high ∧ (s.moved b p).low ≤ (s.moved b p).high := by
  have hmoved : s.moved b p = { s with
      bracket := b, low := p + 1.1 * (p - b.best.step), high := p + 4.0 * (p - b.best.step),
      step := min p s.greatest } := by
    simp [moved, h, hleast, max_eq_left (hbest.trans hp.le)]
  rw [hmoved]
  refine ⟨lt_min hp hg, min_le_right _ _, (min_le_left _ _).trans_lt ?_, ?_⟩
  · norm_num
    exact hp
  · norm_num
    linarith

theorem narrowed_tilted (ht : t.step = s.step) (htilted : s.tilted = true) (hle : t.value ≤ s.bracket.best.value)
    (hlt : s.line t.step < t.value) (hline : s.bracket.best.value ≤ s.line s.bracket.best.step)
    (hslope : s.bracket.best.slope < s.slopeTest) (hstep : s.bracket.best.step < t.step)
    (hother : s.bracket.closed = true → s.bracket.other.step ≠ t.step) :
    ∃ p, s.narrowed t = .ok ({ best := s.bracket.best, other := t, closed := true }, p) ∧
      s.bracket.best.step < p ∧ p < t.step := by
  have hhigher : (s.tilt s.bracket.best).value < (s.tilt t).value := by
    simp only [tilt, line] at hline hlt ⊢
    linarith
  have hfalls : Downhill (s.tilt s.bracket.best) (s.tilt t) :=
    mul_neg_of_neg_of_pos (sub_neg.mpr hslope) (sub_pos.mpr hstep)
  set tilted : Bracket ℝ :=
    { s.bracket with best := s.tilt s.bracket.best, other := s.tilt s.bracket.other } with hb
  obtain ⟨p, hp, hin, -⟩ := update_eq_ok (b := tilted) s.low s.high hfalls hother
  have hreplace : tilted.replace (s.tilt t) = { best := s.tilt s.bracket.best, other := s.tilt t, closed := true } :=
    if_pos hhigher
  refine ⟨p, ?_, hin hhigher hstep⟩
  rw [narrowed, if_pos (by simpa [htilted, hle, ht] using hlt)]
  refine (congrArg (Except.map _) hp).trans ?_
  rw [hreplace]
  simp [Except.map, tilt, untilt]

theorem next_eq_replace (h : s.line t.step < t.value → s.bracket.best.value < t.value) :
    s.next t = s.bracket.replace t := by
  rw [next]
  split_ifs with hv
  · rw [replace, if_pos (h hv)]
  · rfl

/-- A trial is taken in without a division by zero, and the bracket that it leaves does not depend on the function
that was interpolated. -/
theorem narrowed_eq_ok (ht : t.step = s.step) (hline : s.bracket.best.value ≤ s.line s.bracket.best.step)
    (hdown : Downhill s.bracket.best t)
    (htilt : s.tilted = true → s.bracket.best.slope < s.slopeTest ∧ s.bracket.best.step < t.step)
    (hplain : s.tilted = false → s.line t.step < t.value → s.bracket.best.value < t.value)
    (hother : s.bracket.closed = true → s.bracket.other.step ≠ t.step) :
    ∃ p, s.narrowed t = .ok (s.next t, p) ∧
      (s.line t.step < t.value ∨ s.bracket.best.value < t.value → s.bracket.best.step < t.step →
        s.bracket.best.step < p ∧ p < t.step) ∧
      ((s.next t).closed = false → s.bracket.best.step < t.step → t.slope < 0 → s.low ≤ s.high → t.step < s.high →
        t.step < p ∧ s.low ≤ p ∧ p ≤ s.high) := by
  by_cases hc : s.tilted = true ∧ t.value ≤ s.bracket.best.value ∧ s.line t.step < t.value
  · obtain ⟨htilted, hle, hlt⟩ := hc
    obtain ⟨hslope, hstep⟩ := htilt htilted
    obtain ⟨p, hp, hin⟩ := narrowed_tilted ht htilted hle hlt hline hslope hstep hother
    rw [next, if_pos hlt]
    exact ⟨p, hp, fun _ _ => hin, fun hopen => absurd hopen.symm Bool.false_ne_true⟩
  · have hlt : s.line t.step < t.value → s.bracket.best.value < t.value := by
      intro hv
      cases htilted : s.tilted with
      | true => exact not_le.mp fun hle => hc ⟨htilted, hle, hv⟩
      | false => exact hplain htilted hv
    obtain ⟨p, hp, hin, hover⟩ := update_eq_ok s.low s.high hdown hother
    rw [next_eq_replace hlt]
    refine ⟨p, ?_, fun hv => hin (hv.elim hlt id), hover⟩
    rw [narrowed, if_neg (by simpa [ht, and_assoc] using hc)]
    exact hp

/-- What holds at a trial that does not end the search. -/
structure Goes (s : Wolfe ℝ) (v g : ℝ) : Prop where
  steep : v ≤ s.line s.step → s.c2 * -s.slope < |g|
  below : s.step = s.greatest → v ≤ s.line s.step → s.slopeTest < g
  inside : s.bracket.closed = true → s.low < s.step ∧ s.step < s.high

theorem Goes.of_outcome (h : s.outcome? v g = none) : s.Goes v g := by
  simp only [outcome?, Scalar.abs_real] at h
  split_ifs at h with h1 h2 h3 h4 h5
  simp only [Bool.and_eq_true, Bool.or_eq_true, decide_eq_true_eq, beq_iff_eq] at h1 h3 h5
  refine ⟨fun hv => ?_, fun hg hv => ?_, fun hc => ?_⟩
  · exact not_le.mp fun hle => h1 ⟨hv, hle⟩
  · exact not_le.mp fun hle => h3 ⟨⟨hg, hv⟩, hle⟩
  · exact ⟨not_le.mp fun hle => h5 ⟨hc, .inl hle⟩, not_le.mp fun hle => h5 ⟨hc, .inr hle⟩⟩

/-- An update judges the trial once it is settled which slope is tested, and moves on if nothing is found. -/
theorem update_eq (s : Wolfe ℝ) (v g : ℝ) : s.update v g = match (s.switched v g).outcome? v g with
    | some o => (.ok (some o), s.switched v g)
    | none =>
        match (s.switched v g).narrowed ⟨s.step, v, g⟩ with
        | .error why => (.error why, s.switched v g)
        | .ok (b, p) => (.ok none, (s.switched v g).moved b p) := by
  have hs : (if s.tilted && v ≤ s.line s.step && g ≥ 0 then { s with tilted := false } else s) = s.switched v g := rfl
  have hstep : s.step = (s.switched v g).step := switched_step.symm
  rw [hstep]
  simp only [update, hs]
  cases (s.switched v g).outcome? v g with
  | some o => rfl
  | none => cases (s.switched v g).narrowed ⟨(s.switched v g).step, v, g⟩ <;> rfl

theorem update_eq_none (h : s.update v g = (.ok none, s')) :
    (s.switched v g).Goes v g ∧
      ∃ b p, (s.switched v g).narrowed ⟨s.step, v, g⟩ = .ok (b, p) ∧ s' = (s.switched v g).moved b p := by
  rw [update_eq] at h
  split at h
  · cases h
  · rename_i hnone
    split at h
    · cases h
    · rename_i b p hb
      cases h
      exact ⟨.of_outcome hnone, b, p, hb, rfl⟩

theorem update_of_narrowed (ho : (s.switched v g).outcome? v g = none)
    (hn : (s.switched v g).narrowed ⟨s.step, v, g⟩ = .ok (b, p)) :
    s.update v g = (.ok none, (s.switched v g).moved b p) := by
  simp only [update_eq, ho, hn]

end BoxBfgs.Wolfe
