import BoxBfgs.Proofs.Search.Step

namespace BoxBfgs.Wolfe

open BoxBfgs.Bracket

variable {s s' : Wolfe ℝ} {b : Bracket ℝ} {v g p : ℝ}

structure Tilting (s : Wolfe ℝ) : Prop where
  tilted : s.tilted = true
  line : s.bracket.best.value ≤ s.line s.bracket.best.step
  slope : s.bracket.best.slope < s.c2 * s.slope

/-- The bracket is open: the trials go on and on along the line. -/
structure Extending (s : Wolfe ℝ) : Prop extends Tilting s where
  closed : s.bracket.closed = false
  other : s.bracket.other = s.origin
  step : s.bracket.best.step < s.step
  step_high : s.step < s.high
  low_high : s.low ≤ s.high

/-- The bracket is closed and the function is searched with the line of sufficient decrease taken off. -/
structure Descending (s : Wolfe ℝ) : Prop extends Tilting s where
  closed : s.bracket.closed = true
  low : s.low = s.bracket.best.step
  high : s.high = s.bracket.other.step
  ends : s.bracket.best.step < s.bracket.other.step
  other_le : s.bracket.other.step ≤ s.greatest
  worse : s.line s.bracket.other.step < s.bracket.other.value ∨ s.bracket.best.value < s.bracket.other.value

/-- The bracket is closed and the function itself is searched. -/
structure Narrowing (s : Wolfe ℝ) : Prop where
  tilted : s.tilted = false
  closed : s.bracket.closed = true
  low : s.low = min s.bracket.best.step s.bracket.other.step
  high : s.high = max s.bracket.best.step s.bracket.other.step
  downhill : Downhill s.bracket.best s.bracket.other
  value_le : s.bracket.best.value ≤ s.bracket.other.value
  below : s.bracket.best.value ≤ s.line s.high
  low_nonneg : 0 ≤ s.low
  high_le : s.high ≤ s.greatest

/-- What every search keeps, whatever values and slopes it is given. -/
structure Sound (s : Wolfe ℝ) : Prop where
  c1_pos : 0 < s.c1
  c1_lt : s.c1 < s.c2
  c2_lt : s.c2 < 1
  tolerance_lt : s.tolerance < 1
  slope_neg : s.slope < 0
  least : s.least = 0
  step_pos : 0 < s.step
  step_le : s.step ≤ s.greatest
  best : s.bracket.best = s.origin ∨ 0 < s.bracket.best.step
  phase : s.Extending ∨ s.Descending ∨ s.Narrowing

theorem start_eq_ok {value slope step greatest c1 c2 tolerance : ℝ} (hc1 : 0 < c1) (hc : c1 < c2) (hc2 : c2 < 1)
    (hslope : slope < 0) (hstep : 0 ≤ step) (hle : step ≤ greatest) :
    start value slope step greatest c1 c2 tolerance 0 = .ok {
      c1, c2, tolerance, least := 0, greatest, value, slope, step
      tilted := true
      bracket := { best := ⟨0, value, slope⟩, other := ⟨0, value, slope⟩, closed := false }
      low := 0
      high := step + 4.0 * step
      width := greatest - 0
      widthBefore := (greatest - 0) / 0.5 } := by
  simp [start, hc1, hc, hc2, hstep, hle, not_le.mpr hslope]

theorem start_sound {value slope step greatest c1 c2 tolerance : ℝ} (hc1 : 0 < c1) (hc : c1 < c2) (hc2 : c2 < 1)
    (htol : tolerance < 1) (hslope : slope < 0) (hstep : 0 < step) (hle : step ≤ greatest)
    (h : start value slope step greatest c1 c2 tolerance 0 = .ok s) : s.Sound := by
  rw [start_eq_ok hc1 hc hc2 hslope hstep.le hle] at h
  cases h
  refine ⟨hc1, hc, hc2, htol, hslope, rfl, hstep, hle, .inl rfl, .inl ⟨⟨rfl, ?_, ?_⟩, rfl, rfl, hstep, ?_, ?_⟩⟩
  · simp [line]
  · exact lt_mul_of_lt_one_left hslope hc2
  · norm_num
    exact hstep
  · norm_num
    linarith

theorem Narrowing.inside (hn : s.Narrowing) (hg : s.Goes v g) :
    min s.bracket.best.step s.bracket.other.step < s.step ∧
      s.step < max s.bracket.best.step s.bracket.other.step := by
  rw [← hn.low, ← hn.high]
  exact hg.inside hn.closed

theorem moved_descending (ht : (s.switched v g).tilted = true) (hc : b.closed = true)
    (hline : b.best.value ≤ s.line b.best.step) (hslope : b.best.slope < s.c2 * s.slope)
    (hends : b.best.step < b.other.step) (hle : b.other.step ≤ s.greatest)
    (hworse : s.line b.other.step < b.other.value ∨ b.best.value < b.other.value) :
    ((s.switched v g).moved b p).Descending := by
  have hsame := (switched_sameLine s v g).trans (moved_sameLine (s.switched v g) b p)
  refine ⟨⟨?_, ?_, ?_⟩, ?_, ?_, ?_, ?_, ?_, ?_⟩
  · rwa [moved_tilted]
  · rwa [moved_bracket, hsame.line]
  · rwa [moved_bracket, hsame.c2, hsame.slope]
  · rwa [moved_bracket]
  · rw [moved_low hc, moved_bracket, min_eq_left hends.le]
  · rw [moved_high hc, moved_bracket, max_eq_right hends.le]
  · rwa [moved_bracket]
  · rwa [moved_bracket, hsame.greatest]
  · rwa [moved_bracket, hsame.line]

theorem moved_narrowing (ht : (s.switched v g).tilted = false) (hc : b.closed = true) (hdown : Downhill b.best b.other)
    (hvalue : b.best.value ≤ b.other.value) (hbelow : b.best.value ≤ s.line (max b.best.step b.other.step))
    (hlow : 0 ≤ min b.best.step b.other.step) (hhigh : max b.best.step b.other.step ≤ s.greatest) :
    ((s.switched v g).moved b p).Narrowing := by
  have hsame := (switched_sameLine s v g).trans (moved_sameLine (s.switched v g) b p)
  refine ⟨?_, ?_, ?_, ?_, ?_, ?_, ?_, ?_, ?_⟩
  · rwa [moved_tilted]
  · rwa [moved_bracket]
  · rw [moved_low hc, moved_bracket]
  · rw [moved_high hc, moved_bracket]
  · rwa [moved_bracket]
  · rwa [moved_bracket]
  · rwa [moved_high hc, moved_bracket, hsame.line]
  · rwa [moved_low hc]
  · rwa [moved_high hc, hsame.greatest]

theorem Goes.of_switched (hg : (s.switched v g).Goes v g) : s.Goes v g := by
  have hsame := switched_sameLine s v g
  obtain ⟨hsteep, hbelow, hin⟩ := hg
  rw [switched_step, hsame.line, hsame.c2, hsame.slope] at hsteep
  rw [switched_step, hsame.line, hsame.greatest, hsame.slopeTest] at hbelow
  rw [switched_step, switched_bracket, switched_low, switched_high] at hin
  exact ⟨hsteep, hbelow, hin⟩

namespace Sound

variable (h : s.Sound)

include h

theorem slopeTest_neg : s.slopeTest < 0 := mul_neg_of_pos_of_neg h.c1_pos h.slope_neg

theorem steep_lt : s.c2 * s.slope < s.slopeTest := mul_lt_mul_of_neg_right h.c1_lt h.slope_neg

theorem line_le {x y : ℝ} (hxy : x ≤ y) : s.line y ≤ s.line x := by
  have := mul_le_mul_of_nonpos_right hxy h.slopeTest_neg.le
  simpa only [line, add_le_add_iff_left] using this

theorem best_nonneg : 0 ≤ s.bracket.best.step := by
  rcases h.best with he | hpos
  · rw [he]
    exact le_rfl
  · exact hpos.le

theorem tilting (ht : s.tilted = true) : s.Tilting := by
  rcases h.phase with he | hd | hn
  · exact he.toTilting
  · exact hd.toTilting
  · exact absurd (hn.tilted.symm.trans ht) Bool.false_ne_true

theorem narrowing (ht : s.tilted = false) : s.Narrowing := by
  rcases h.phase with he | hd | hn
  · exact absurd (ht.symm.trans he.tilted) Bool.false_ne_true
  · exact absurd (ht.symm.trans hd.tilted) Bool.false_ne_true
  · exact hn

theorem extending (ht : s.tilted = true) (hc : s.bracket.closed = false) : s.Extending := by
  rcases h.phase with he | hd | hn
  · exact he
  · exact absurd (hc.symm.trans hd.closed) Bool.false_ne_true
  · exact absurd (hn.tilted.symm.trans ht) Bool.false_ne_true

theorem descending (ht : s.tilted = true) (hc : s.bracket.closed = true) : s.Descending := by
  rcases h.phase with he | hd | hn
  · exact absurd (he.closed.symm.trans hc) Bool.false_ne_true
  · exact hd
  · exact absurd (hn.tilted.symm.trans ht) Bool.false_ne_true

theorem slope_ne_zero (hg : s.Goes v g) (hv : v ≤ s.line s.step) : g ≠ 0 := by
  intro hz
  have hsteep := hg.steep hv
  rw [hz, abs_zero] at hsteep
  exact absurd hsteep (mul_nonneg (h.c1_pos.trans h.c1_lt).le (neg_nonneg.mpr h.slope_neg.le)).not_gt

theorem best_line : s.bracket.best.value ≤ s.line s.bracket.best.step := by
  rcases h.phase with he | hd | hn
  · exact he.line
  · exact hd.line
  · refine hn.below.trans (h.line_le ?_)
    rw [hn.high]
    exact le_max_left _ _

theorem ahead (hg : s.Goes v g) (ht : s.tilted = true) : s.bracket.best.step < s.step := by
  rcases h.phase with he | hd | hn
  · exact he.step
  · have hin := (hg.inside hd.closed).1
    rwa [hd.low] at hin
  · exact absurd (hn.tilted.symm.trans ht) Bool.false_ne_true

theorem best_slope_lt (ht : s.tilted = true) : s.bracket.best.slope < s.slopeTest :=
  (h.tilting ht).slope.trans h.steep_lt

theorem downhill (hg : s.Goes v g) : Downhill s.bracket.best ⟨s.step, v, g⟩ := by
  cases ht : s.tilted with
  | true =>
      have hslope := (h.best_slope_lt ht).trans h.slopeTest_neg
      exact mul_neg_of_neg_of_pos hslope (sub_pos.mpr (h.ahead hg ht))
  | false =>
      have hn := h.narrowing ht
      obtain ⟨hlow, hhigh⟩ := hn.inside hg
      exact hn.downhill.between hlow hhigh

theorem steep_of_tilted (hg : s.Goes v g) (ht : s.tilted = true) (hv : v ≤ s.line s.step)
    (ho : 0 ≤ s.bracket.best.slope * g) : g < s.c2 * s.slope := by
  have hslope := (h.best_slope_lt ht).trans h.slopeTest_neg
  have hle : g ≤ 0 := nonpos_of_mul_nonneg_right ho hslope
  have hsteep := hg.steep hv
  rw [abs_of_nonpos hle] at hsteep
  linarith

theorem best_le : s.bracket.best.step ≤ s.greatest := by
  rcases h.phase with he | hd | hn
  · exact he.step.le.trans h.step_le
  · exact hd.ends.le.trans hd.other_le
  · refine le_trans ?_ hn.high_le
    rw [hn.high]
    exact le_max_left _ _

theorem other_nonneg : 0 ≤ s.bracket.other.step := by
  rcases h.phase with he | hd | hn
  · rw [he.other]
    exact le_rfl
  · exact h.best_nonneg.trans hd.ends.le
  · refine hn.low_nonneg.trans ?_
    rw [hn.low]
    exact min_le_right _ _

theorem other_le : s.bracket.other.step ≤ s.greatest := by
  rcases h.phase with he | hd | hn
  · rw [he.other]
    exact h.step_pos.le.trans h.step_le
  · exact hd.other_le
  · refine le_trans ?_ hn.high_le
    rw [hn.high]
    exact le_max_right _ _

theorem other_ne (hg : s.Goes v g) (hc : s.bracket.closed = true) : s.bracket.other.step ≠ s.step := by
  rcases h.phase with he | hd | hn
  · exact absurd (he.closed.symm.trans hc) Bool.false_ne_true
  · have hin := (hg.inside hc).2
    rw [hd.high] at hin
    exact hin.ne'
  · intro heq
    obtain ⟨hlow, hhigh⟩ := hn.inside hg
    rw [← heq] at hlow hhigh
    rcases le_total s.bracket.best.step s.bracket.other.step with hle | hle
    · rw [max_eq_right hle] at hhigh
      exact lt_irrefl _ hhigh
    · rw [min_eq_right hle] at hlow
      exact lt_irrefl _ hlow

theorem best_below (hn : s.Narrowing) {x : ℝ} (hx : x ≤ s.high) : s.bracket.best.value ≤ s.line x :=
  hn.below.trans (h.line_le hx)

theorem switched_tilted_false (hv : s.line s.step < v) (ht : (s.switched v g).tilted = false) : s.Narrowing := by
  have hs : ¬s.tilted = true := fun hs =>
    absurd (ht.symm.trans (switched_tilted.mpr ⟨hs, fun hle => absurd hv hle.not_gt⟩)) Bool.false_ne_true
  exact h.narrowing (Bool.not_eq_true _ ▸ hs)

theorem narrowed_eq_ok (hg : s.Goes v g) : ∃ p, (s.switched v g).narrowed ⟨s.step, v, g⟩ = .ok (s.next ⟨s.step, v, g⟩, p) ∧
    (s.line s.step < v ∨ s.bracket.best.value < v → s.bracket.best.step < s.step →
      s.bracket.best.step < p ∧ p < s.step) ∧
    ((s.next ⟨s.step, v, g⟩).closed = false → s.bracket.best.step < s.step → g < 0 → s.low ≤ s.high →
      s.step < s.high → s.step < p ∧ s.low ≤ p ∧ p ≤ s.high) := by
  have hsame := switched_sameLine s v g
  have hnext : (s.switched v g).next ⟨s.step, v, g⟩ = s.next ⟨s.step, v, g⟩ := by
    rw [next, next, hsame.line, switched_bracket]
  have hok := Wolfe.narrowed_eq_ok (s := s.switched v g) (t := ⟨s.step, v, g⟩) switched_step.symm
  rw [hnext, switched_bracket, switched_low, switched_high, hsame.line, hsame.slopeTest] at hok
  refine hok h.best_line (h.downhill hg) (fun ht => ?_) (fun ht hv => ?_) (h.other_ne hg)
  · have hs := (switched_tilted.mp ht).1
    exact ⟨h.best_slope_lt hs, h.ahead hg hs⟩
  · have hn := h.switched_tilted_false hv ht
    exact (h.best_below hn (hg.inside hn.closed).2.le).trans_lt hv

omit h in
theorem of_sameLine (h : s.Sound) (hs : SameLine s s') (hpos : 0 < s'.step) (hle : s'.step ≤ s.greatest)
    (hbest : s'.bracket.best = s.origin ∨ 0 < s'.bracket.best.step)
    (hphase : s'.Extending ∨ s'.Descending ∨ s'.Narrowing) : s'.Sound where
  c1_pos := hs.c1 ▸ h.c1_pos
  c1_lt := hs.c1 ▸ hs.c2 ▸ h.c1_lt
  c2_lt := hs.c2 ▸ h.c2_lt
  tolerance_lt := hs.tolerance ▸ h.tolerance_lt
  slope_neg := hs.slope ▸ h.slope_neg
  least := hs.least.trans h.least
  step_pos := hpos
  step_le := hs.greatest ▸ hle
  best := hs.origin ▸ hbest
  phase := hphase

/-- A trial without sufficient decrease, or above the best step, closes the bracket. -/
theorem worse_sound (hg : s.Goes v g) (hv : s.line s.step < v ∨ s.bracket.best.value < v)
    (hp : s.bracket.best.step < s.step → s.bracket.best.step < p ∧ p < s.step) :
    ((s.switched v g).moved { best := s.bracket.best, other := ⟨s.step, v, g⟩, closed := true } p).Sound := by
  have hsame := switched_sameLine s v g
  have hpos : 0 < ((s.switched v g).moved { best := s.bracket.best, other := ⟨s.step, v, g⟩, closed := true } p).step := by
    -- With the best step still at the start, the next trial must not fall back onto it.
    rcases h.best with he | hpos
    · have hz : s.bracket.best.step = 0 := by rw [he]; rfl
      obtain ⟨hp0, hp1⟩ := hp (hz ▸ h.step_pos)
      exact moved_step_pos_of_origin rfl hz h.step_pos (hsame.greatest ▸ h.step_le) (hsame.least.trans h.least)
        (hsame.tolerance ▸ h.tolerance_lt) (hz ▸ hp0) hp1
    · exact moved_step_pos rfl hpos h.step_pos.le
  refine h.of_sameLine (hsame.trans (moved_sameLine _ _ _)) hpos (moved_step_le rfl h.best_le h.step_le) ?_ (.inr ?_)
  · rw [moved_bracket]
    exact h.best
  · cases hs : s.tilted with
    | true =>
        have ht := h.tilting hs
        have hahead := h.ahead hg hs
        cases hu : (s.switched v g).tilted with
        | true => exact .inl (moved_descending hu rfl ht.line ht.slope hahead h.step_le hv)
        | false =>
            have hle : v ≤ s.line s.step := not_lt.mp fun hlt => by
              have hn := h.switched_tilted_false hlt hu
              exact Bool.false_ne_true (hn.tilted.symm.trans hs)
            have hlt : s.bracket.best.value < v := hv.resolve_left hle.not_gt
            refine .inr (moved_narrowing hu rfl (h.downhill hg) hlt.le ?_ (le_min h.best_nonneg h.step_pos.le)
              (max_le h.best_le h.step_le))
            rw [max_eq_right hahead.le]
            exact hlt.le.trans hle
    | false =>
        have hn := h.narrowing hs
        have hu := switched_tilted_of_false (v := v) (g := g) hs
        have hin := (hg.inside hn.closed).2
        have hlt : s.bracket.best.value < v := hv.elim (h.best_below hn hin.le).trans_lt id
        refine .inr (moved_narrowing hu rfl (h.downhill hg) hlt.le (h.best_below hn (max_le ?_ hin.le))
          (le_min h.best_nonneg h.step_pos.le) (max_le h.best_le h.step_le))
        rw [hn.high]
        exact le_max_left _ _

/-- A better trial with the opposite slope takes the best step's place, which closes the bracket. -/
theorem opposed_sound (hg : s.Goes v g) (hv : v ≤ s.line s.step) (hb : v ≤ s.bracket.best.value)
    (ho : s.bracket.best.slope * g < 0) :
    ((s.switched v g).moved { best := ⟨s.step, v, g⟩, other := s.bracket.best, closed := true } p).Sound := by
  have hsame := (switched_sameLine s v g).trans (moved_sameLine (s.switched v g)
    { best := ⟨s.step, v, g⟩, other := s.bracket.best, closed := true } p)
  refine h.of_sameLine hsame (moved_step_pos rfl h.step_pos h.best_nonneg) (moved_step_le rfl h.step_le h.best_le)
    (.inr (moved_bracket ▸ h.step_pos)) (.inr (.inr ?_))
  have hu : (s.switched v g).tilted = false := by
    rw [← Bool.not_eq_true, switched_tilted]
    rintro ⟨hs, hneg⟩
    have hslope := (h.best_slope_lt hs).trans h.slopeTest_neg
    exact absurd ho (mul_nonneg_of_nonpos_of_nonpos hslope.le (hneg hv).le).not_gt
  have hdown : Downhill ⟨s.step, v, g⟩ s.bracket.best := (h.downhill hg).symm_of_opposed ho
  refine moved_narrowing hu rfl hdown hb ?_ (le_min h.step_pos.le h.best_nonneg) (max_le h.step_le h.best_le)
  cases hs : s.tilted with
  | true => rwa [max_eq_left (h.ahead hg hs).le]
  | false =>
      have hn := h.narrowing hs
      refine hb.trans (h.best_below hn (max_le (hg.inside hn.closed).2.le ?_))
      rw [hn.high]
      exact le_max_left _ _

/-- A better trial that still falls steeply goes on as the best step of the tilted function. -/
theorem tilting_sound (hg : s.Goes v g) (hs : s.tilted = true) (hv : v ≤ s.line s.step) (hb : v ≤ s.bracket.best.value)
    (hsteep : g < s.c2 * s.slope)
    (hp : s.bracket.closed = false → s.bracket.best.step < s.step → g < 0 → s.low ≤ s.high → s.step < s.high →
      s.step < p ∧ s.low ≤ p ∧ p ≤ s.high) :
    ((s.switched v g).moved { s.bracket with best := ⟨s.step, v, g⟩ } p).Sound := by
  have hswitched := switched_sameLine s v g
  have hsame := hswitched.trans (moved_sameLine (s.switched v g) { s.bracket with best := ⟨s.step, v, g⟩ } p)
  have hpos : 0 < ((s.switched v g).moved { s.bracket with best := ⟨s.step, v, g⟩ } p).bracket.best.step := by
    rw [moved_bracket]
    exact h.step_pos
  have hneg : g < 0 := hsteep.trans (h.steep_lt.trans h.slopeTest_neg)
  have hu : (s.switched v g).tilted = true := switched_tilted.mpr ⟨hs, fun _ => hneg⟩
  cases hc : s.bracket.closed with
  | true =>
      have hd := h.descending hs hc
      have hin := (hg.inside hc).2
      rw [hd.high] at hin
      refine h.of_sameLine hsame (moved_step_pos hc h.step_pos h.other_nonneg) (moved_step_le hc h.step_le h.other_le)
        (.inr hpos) (.inr (.inl ?_))
      exact moved_descending hu hc hv hsteep hin hd.other_le (hd.worse.imp_right hb.trans_lt)
  | false =>
      have he := h.extending hs hc
      have hlt : s.step < s.greatest := lt_of_le_of_ne h.step_le fun heq =>
        absurd (hg.below heq hv) (hsteep.trans h.steep_lt).not_gt
      obtain ⟨hover, -, -⟩ := hp hc he.step hneg he.low_high he.step_high
      obtain ⟨hnext, hle, hhigh, hlow⟩ := moved_open (s := s.switched v g)
        (b := { s.bracket with best := ⟨s.step, v, g⟩ }) hc (hswitched.least.trans h.least) h.step_pos.le hover
        (hswitched.greatest ▸ hlt)
      refine h.of_sameLine hsame (h.step_pos.trans hnext) (hswitched.greatest ▸ hle) (.inr hpos)
        (.inl ⟨⟨?_, ?_, ?_⟩, ?_, ?_, ?_, hhigh, hlow⟩)
      · rwa [moved_tilted]
      · rwa [moved_bracket, hsame.line]
      · rwa [moved_bracket, hsame.c2, hsame.slope]
      · rwa [moved_bracket]
      · rw [moved_bracket, hsame.origin]
        exact he.other
      · rwa [moved_bracket]

/-- A better trial with a slope of the same sign becomes one end of a bracket of the function itself. -/
theorem narrowing_sound (hg : s.Goes v g) (hs : s.tilted = false) (hv : v ≤ s.line s.step)
    (hb : v ≤ s.bracket.best.value) (ho : 0 ≤ s.bracket.best.slope * g) :
    ((s.switched v g).moved { s.bracket with best := ⟨s.step, v, g⟩ } p).Sound := by
  have hsame := (switched_sameLine s v g).trans (moved_sameLine (s.switched v g)
    { s.bracket with best := ⟨s.step, v, g⟩ } p)
  have hn := h.narrowing hs
  have hu := switched_tilted_of_false (v := v) (g := g) hs
  have hin := (hg.inside hn.closed).2
  have hother : s.bracket.other.step ≤ s.high := by
    rw [hn.high]
    exact le_max_right _ _
  have hdown : Downhill ⟨s.step, v, g⟩ s.bracket.other := by
    obtain ⟨hlow, hhigh⟩ := hn.inside hg
    exact hn.downhill.between_of_along hlow hhigh ho (h.slope_ne_zero hg hv)
  refine h.of_sameLine hsame (moved_step_pos hn.closed h.step_pos h.other_nonneg)
    (moved_step_le hn.closed h.step_le h.other_le) (.inr ?_) (.inr (.inr ?_))
  · rw [moved_bracket]
    exact h.step_pos
  · exact moved_narrowing hu hn.closed hdown (hb.trans hn.value_le) (hb.trans (h.best_below hn (max_le hin.le hother)))
      (le_min h.step_pos.le h.other_nonneg) (max_le h.step_le h.other_le)

/-- A better trial with a slope of the same sign takes the best step's place, and the other end stays. -/
theorem along_sound (hg : s.Goes v g) (hv : v ≤ s.line s.step) (hb : v ≤ s.bracket.best.value)
    (ho : 0 ≤ s.bracket.best.slope * g)
    (hp : s.bracket.closed = false → s.bracket.best.step < s.step → g < 0 → s.low ≤ s.high → s.step < s.high →
      s.step < p ∧ s.low ≤ p ∧ p ≤ s.high) :
    ((s.switched v g).moved { s.bracket with best := ⟨s.step, v, g⟩ } p).Sound := by
  cases hs : s.tilted with
  | true => exact h.tilting_sound hg hs hv hb (h.steep_of_tilted hg hs hv ho) hp
  | false => exact h.narrowing_sound hg hs hv hb ho

theorem next_sound (hg : s.Goes v g) (hp : s.line s.step < v ∨ s.bracket.best.value < v → s.bracket.best.step < s.step →
      s.bracket.best.step < p ∧ p < s.step)
    (hover : (s.next ⟨s.step, v, g⟩).closed = false → s.bracket.best.step < s.step → g < 0 → s.low ≤ s.high →
      s.step < s.high → s.step < p ∧ s.low ≤ p ∧ p ≤ s.high) :
    ((s.switched v g).moved (s.next ⟨s.step, v, g⟩) p).Sound := by
  simp only [next, replace] at hover ⊢
  by_cases hv : s.line s.step < v
  · rw [if_pos hv]
    exact h.worse_sound hg (.inl hv) (hp (.inl hv))
  · rw [if_neg hv] at hover ⊢
    by_cases hb : s.bracket.best.value < v
    · rw [if_pos hb]
      exact h.worse_sound hg (.inr hb) (hp (.inr hb))
    · rw [if_neg hb] at hover ⊢
      by_cases ho : s.bracket.best.slope * g < 0
      · rw [if_pos ho]
        exact h.opposed_sound hg (not_lt.mp hv) (not_lt.mp hb) ho
      · rw [if_neg ho] at hover ⊢
        exact h.along_sound hg (not_lt.mp hv) (not_lt.mp hb) (not_lt.mp ho) hover

/-- An update that goes on keeps the invariant, and says what it made of the bracket. -/
theorem update_sound (hu : s.update v g = (.ok none, s')) :
    s'.Sound ∧ SameLine s s' ∧ s'.bracket = s.next ⟨s.step, v, g⟩ := by
  obtain ⟨hg, b, p, hb, rfl⟩ := update_eq_none hu
  obtain ⟨p', hok, hin, hover⟩ := h.narrowed_eq_ok hg.of_switched
  cases hb.symm.trans hok
  refine ⟨h.next_sound hg.of_switched hin hover, ?_, moved_bracket⟩
  exact (switched_sameLine s v g).trans (moved_sameLine _ _ _)

end Sound

end BoxBfgs.Wolfe
