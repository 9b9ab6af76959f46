import BoxBfgs.Proofs.Basic
import BoxBfgs.Search.Bracket

namespace BoxBfgs.Bracket

variable {b b' : Bracket ℝ} {x t : Sample ℝ} {p : ℝ}

/-- The trial lies on the side of the best step to which the line falls there. -/
def Downhill (x t : Sample ℝ) : Prop := x.slope * (t.step - x.step) < 0

noncomputable def replace (b : Bracket ℝ) (t : Sample ℝ) : Bracket ℝ :=
  if b.best.value < t.value then { best := b.best, other := t, closed := true }
  else if b.best.slope * t.slope < 0 then { best := t, other := b.best, closed := true }
  else { b with best := t }

theorem quotient_eq_ok {a d : ℝ} (h : d ≠ 0) : quotient a d = .ok (a / d) := by
  simp [quotient, h]

theorem root_nonneg (theta a d : ℝ) : 0 ≤ root theta a d := by
  simp only [root, Scalar.abs_real, Scalar.greatest_real, Scalar.sqrt_real]
  split_ifs with h
  · exact le_rfl
  · have hs : 0 ≤ max (max |theta| |a|) |d| := (abs_nonneg d).trans (le_max_right _ _)
    exact mul_nonneg hs (Real.sqrt_nonneg _)

theorem radicand_le_root (theta a d : ℝ) : theta * theta - a * d ≤ root theta a d * root theta a d := by
  simp only [root, Scalar.abs_real, Scalar.greatest_real, Scalar.sqrt_real]
  split_ifs with h
  · have hs : max (max |theta| |a|) |d| = 0 := by simpa using h
    have ht : theta = 0 := by
      have := (le_max_left |theta| |a|).trans (le_max_left _ |d|)
      rw [hs] at this
      exact abs_nonpos_iff.mp this
    have ha : a = 0 := by
      have := (le_max_right |theta| |a|).trans (le_max_left _ |d|)
      rw [hs] at this
      exact abs_nonpos_iff.mp this
    simp [ht, ha]
  · set s := max (max |theta| |a|) |d| with hdef
    have hs : s ≠ 0 := by simpa using h
    have hm := Real.mul_self_sqrt (le_max_left 0 (theta / s * (theta / s) - a / s * (d / s)))
    calc theta * theta - a * d = s * s * (theta / s * (theta / s) - a / s * (d / s)) := by field_simp
      _ ≤ s * s * max 0 (theta / s * (theta / s) - a / s * (d / s)) :=
          mul_le_mul_of_nonneg_left (le_max_right _ _) (mul_self_nonneg s)
      _ = _ := by rw [mul_mul_mul_comm, hm]

theorem opposed_iff : opposed x t = true ↔ x.slope * t.slope < 0 := by
  simp only [opposed, Scalar.negative_real]
  rcases lt_trichotomy x.slope 0 with h | h | h
  · simp [h, h.ne, mul_neg_iff, h.not_gt]
  · simp [h]
  · simp [h, h.ne', mul_neg_iff, h.not_gt]

theorem slopes_eq_ok (h : x.step ≠ t.step) :
    slopes x t = .ok (3 * (x.value - t.value) / (t.step - x.step) + x.slope + t.slope) := by
  rw [slopes, quotient_eq_ok (sub_ne_zero.mpr h.symm)]
  norm_num [Except.map]

theorem secant_eq_ok (h : x.slope ≠ t.slope) :
    secant x t = .ok (t.step + t.slope / (t.slope - x.slope) * (x.step - t.step)) := by
  rw [secant, quotient_eq_ok (sub_ne_zero.mpr h.symm)]
  rfl

theorem Downhill.step_ne (h : Downhill x t) : x.step ≠ t.step := by
  intro he
  simp [Downhill, he] at h

theorem Downhill.between {x y t : Sample ℝ} (h : Downhill x y) (hlow : min x.step y.step < t.step)
    (hhigh : t.step < max x.step y.step) : Downhill x t := by
  rw [Downhill] at h ⊢
  rcases lt_trichotomy x.slope 0 with hx | hx | hx
  · have hlt : x.step < y.step := sub_pos.mp (pos_of_mul_neg_right h hx.le)
    rw [min_eq_left hlt.le] at hlow
    exact mul_neg_of_neg_of_pos hx (sub_pos.mpr hlow)
  · rw [hx, zero_mul] at h
    exact absurd h (lt_irrefl 0)
  · have hlt : y.step < x.step := sub_neg.mp (neg_of_mul_neg_right h hx.le)
    rw [max_eq_left hlt.le] at hhigh
    exact mul_neg_of_pos_of_neg hx (sub_neg.mpr hhigh)

theorem Downhill.symm_of_opposed {x t : Sample ℝ} (h : Downhill x t) (ho : x.slope * t.slope < 0) : Downhill t x := by
  rw [Downhill] at h ⊢
  rcases mul_neg_iff.mp ho with ⟨hx, ht⟩ | ⟨hx, ht⟩
  · have hlt : t.step < x.step := sub_neg.mp (neg_of_mul_neg_right h hx.le)
    exact mul_neg_of_neg_of_pos ht (sub_pos.mpr hlt)
  · have hlt : x.step < t.step := sub_pos.mp (pos_of_mul_neg_right h hx.le)
    exact mul_neg_of_pos_of_neg ht (sub_neg.mpr hlt)

theorem Downhill.between_of_along {x y t : Sample ℝ} (h : Downhill x y) (hlow : min x.step y.step < t.step)
    (hhigh : t.step < max x.step y.step) (ho : 0 ≤ x.slope * t.slope) (hne : t.slope ≠ 0) : Downhill t y := by
  rw [Downhill] at h ⊢
  rcases lt_trichotomy x.slope 0 with hx | hx | hx
  · have hlt : x.step < y.step := sub_pos.mp (pos_of_mul_neg_right h hx.le)
    rw [max_eq_right hlt.le] at hhigh
    exact mul_neg_of_neg_of_pos (lt_of_le_of_ne (nonpos_of_mul_nonneg_right ho hx) hne) (sub_pos.mpr hhigh)
  · rw [hx, zero_mul] at h
    exact absurd h (lt_irrefl 0)
  · have hlt : y.step < x.step := sub_neg.mp (neg_of_mul_neg_right h hx.le)
    rw [min_eq_right hlt.le] at hlow
    exact mul_neg_of_pos_of_neg (lt_of_le_of_ne (nonneg_of_mul_nonneg_right ho hx) hne.symm) (sub_neg.mpr hlow)

theorem along_inside {base target p q : ℝ} (hlt : base < target) (hp : 0 < p) (hq : p < q) :
    base < along base target p q ∧ along base target p q < target := by
  have hq0 : 0 < q := hp.trans hq
  have hr : 0 < p / q := div_pos hp hq0
  have hr1 : p / q < 1 := (div_lt_one hq0).mpr hq
  have ha : along base target p q = base + p / q * (target - base) := by simp [along, hq0.ne']
  rw [ha]
  constructor
  · nlinarith
  · nlinarith

theorem Downhill.slope_neg (h : Downhill x t) (hlt : x.step < t.step) : x.slope < 0 := by
  by_contra hge
  exact absurd h (mul_nonneg (not_lt.mp hge) (sub_pos.mpr hlt).le).not_gt

theorem cubic_ratio {m g h theta r : ℝ} (hm : 0 < m) (hg : g < 0) (hr : 0 ≤ r) (htheta : theta = g + h - m)
    (hroot : theta * theta - g * h ≤ r * r) : 0 < r - g + theta ∧ r - g + theta < r - g + r + h := by
  subst htheta
  refine ⟨?_, by linarith⟩
  by_contra hle
  have h1 : r ≤ m - h := by linarith
  have h2 : r * r ≤ (m - h) * (m - h) := mul_self_le_mul_self hr h1
  have h3 : 0 ≤ m - h := hr.trans h1
  nlinarith [mul_neg_of_neg_of_pos hg hm, mul_nonpos_of_nonpos_of_nonneg hg.le h3, mul_self_pos.mpr hg.ne]

/-- A cubic that falls at the best step has its minimum before a higher trial. -/
theorem cubic_inside {theta : ℝ} (hlt : x.step < t.step) (hv : x.value < t.value) (hs : x.slope < 0)
    (htheta : theta = 3 * (x.value - t.value) / (t.step - x.step) + x.slope + t.slope) :
    x.step < along x.step t.step (root theta x.slope t.slope - x.slope + theta)
        (root theta x.slope t.slope - x.slope + root theta x.slope t.slope + t.slope) ∧
      along x.step t.step (root theta x.slope t.slope - x.slope + theta)
        (root theta x.slope t.slope - x.slope + root theta x.slope t.slope + t.slope) < t.step := by
  have hm : 0 < 3 * (t.value - x.value) / (t.step - x.step) :=
    div_pos (mul_pos three_pos (sub_pos.mpr hv)) (sub_pos.mpr hlt)
  have hneg : theta = x.slope + t.slope - 3 * (t.value - x.value) / (t.step - x.step) := by
    rw [htheta]
    ring
  obtain ⟨hp, hq⟩ := cubic_ratio hm hs (root_nonneg theta x.slope t.slope) hneg (radicand_le_root _ _ _)
  exact along_inside hlt hp hq

theorem quadratic_inside (hlt : x.step < t.step) (hv : x.value < t.value) (hs : x.slope < 0) :
    let ratio := x.slope / ((x.value - t.value) / (t.step - x.step) + x.slope)
    x.step < x.step + ratio / 2.0 * (t.step - x.step) ∧ x.step + ratio / 2.0 * (t.step - x.step) < t.step := by
  intro ratio
  have hpos : 0 < t.step - x.step := sub_pos.mpr hlt
  have hmean : (x.value - t.value) / (t.step - x.step) < 0 := div_neg_of_neg_of_pos (sub_neg.mpr hv) hpos
  have hsum : (x.value - t.value) / (t.step - x.step) + x.slope < 0 := add_neg hmean hs
  have hratio : 0 < ratio := div_pos_of_neg_of_neg hs hsum
  have hratio1 : ratio < 1 := by
    rw [div_lt_one_of_neg hsum]
    linarith
  constructor
  · norm_num
    positivity
  · norm_num
    nlinarith

theorem stepHigher_eq_ok (h : Downhill b.best t) (hv : b.best.value < t.value) :
    ∃ p, b.stepHigher t = .ok p ∧ (b.best.step < t.step → b.best.step < p ∧ p < t.step) := by
  have hd : t.step - b.best.step ≠ 0 := sub_ne_zero.mpr h.step_ne.symm
  have hm : (b.best.value - t.value) / (t.step - b.best.step) + b.best.slope ≠ 0 := by
    intro he
    have hz : (b.best.value - t.value) + b.best.slope * (t.step - b.best.step) = 0 := by
      field_simp at he
      linarith
    rw [Downhill] at h
    linarith
  rw [stepHigher]
  refine exists_bind_ok (slopes_eq_ok h.step_ne) (exists_bind_ok (quotient_eq_ok hd)
    (exists_bind_ok (quotient_eq_ok hm) ⟨_, rfl, fun hlt => ?_⟩))
  rw [if_neg hlt.not_gt]
  have hcubic := cubic_inside hlt hv (h.slope_neg hlt) rfl
  have hquad := quadratic_inside hlt hv (h.slope_neg hlt)
  dsimp only at hquad
  generalize along (α := ℝ) _ _ _ _ = cubic at *
  split_ifs
  · exact hcubic
  · norm_num at hquad ⊢
    constructor <;> linarith

theorem stepOpposed_eq_ok (h : Downhill b.best t) (ho : b.best.slope * t.slope < 0) :
    ∃ p, b.stepOpposed t = .ok p := by
  have hs : b.best.slope ≠ t.slope := by
    intro he
    rw [he] at ho
    exact absurd ho (mul_self_nonneg _).not_gt
  obtain ⟨p, hp, -⟩ : ∃ p, b.stepOpposed t = .ok p ∧ True :=
    exists_bind_ok (slopes_eq_ok h.step_ne) (exists_bind_ok (secant_eq_ok hs) ⟨_, rfl, trivial⟩)
  exact ⟨p, hp⟩

/-- The straight line through the slopes of a step and of a flatter trial beyond it meets zero farther on. -/
theorem Downhill.straight_over (h : Downhill x t) (hlt : x.step < t.step) (ht : t.slope < 0)
    (hf : |t.slope| < |x.slope|) :
    t.step < t.step + t.slope / (t.slope - x.slope) * (x.step - t.step) := by
  rw [abs_of_neg (h.slope_neg hlt), abs_of_neg ht] at hf
  have hratio : t.slope / (t.slope - x.slope) < 0 := div_neg_of_neg_of_pos ht (by linarith)
  exact lt_add_of_pos_right _ (mul_pos_of_neg_of_neg hratio (sub_neg.mpr hlt))

theorem cubic_over {r gamma low high : ℝ} (hlt : x.step < t.step) (hhigh : t.step < high) : t.step <
    if r < 0 && gamma != 0 then t.step + r * (x.step - t.step) else if t.step > x.step then high else low := by
  rw [if_pos hlt]
  split_ifs with hr
  · have hneg : r < 0 := by simp_all
    exact lt_add_of_pos_right _ (mul_pos_of_neg_of_neg hneg (sub_neg.mpr hlt))
  · exact hhigh

/-- As long as the bracket is open a flatter trial is stepped over. -/
theorem stepFlatter_eq_ok (low high : ℝ) (h : Downhill b.best t) (hf : |t.slope| < |b.best.slope|) :
    ∃ p, b.stepFlatter t low high = .ok p ∧
      (b.closed = false → b.best.step < t.step → t.slope < 0 → low ≤ high → t.step < high →
        t.step < p ∧ low ≤ p ∧ p ≤ high) := by
  have hs : b.best.slope ≠ t.slope := ne_of_apply_ne abs hf.ne'
  rw [stepFlatter]
  refine exists_bind_ok (slopes_eq_ok h.step_ne) (exists_bind_ok (secant_eq_ok hs) ?_)
  by_cases hc : b.closed = true
  · exact ⟨_, if_pos hc, fun hopen => absurd (hopen.symm.trans hc) Bool.false_ne_true⟩
  · refine ⟨_, if_neg hc, fun _ hlt ht hle hhigh => ?_⟩
    have hpick (c : Prop) [Decidable c] (u v : ℝ) (hu : t.step < u) (hv : t.step < v) :
        t.step < if c then u else v := by
      split_ifs
      · exact hu
      · exact hv
    simp only [Scalar.greatest_real, Scalar.least_real]
    refine ⟨lt_max_of_lt_right (lt_min hhigh ?_), le_max_left _ _, max_le hle (min_le_left _ _)⟩
    exact hpick _ _ _ (cubic_over hlt hhigh) (h.straight_over hlt ht hf)

/-- As long as the bracket is open, a flatter trial is stepped over at least as far as the straight line through the
two slopes says. -/
theorem stepFlatter_far {low high p : ℝ} (h : Downhill b.best t) (hf : |t.slope| < |b.best.slope|)
    (hopen : b.closed = false) (hlt : b.best.step < t.step) (ht : t.slope < 0) (hhigh : t.step < high)
    (hp : b.stepFlatter t low high = .ok p) :
    min high (t.step + t.slope / (t.slope - b.best.slope) * (b.best.step - t.step)) ≤ p := by
  have hs : b.best.slope ≠ t.slope := ne_of_apply_ne abs hf.ne'
  have hstraight := h.straight_over hlt ht hf
  have hfar (c : ℝ) (hc : t.step < c) :
      t.step + t.slope / (t.slope - b.best.slope) * (b.best.step - t.step) ≤
        if |c - t.step| > |t.step + t.slope / (t.slope - b.best.slope) * (b.best.step - t.step) - t.step| then c
        else t.step + t.slope / (t.slope - b.best.slope) * (b.best.step - t.step) := by
    split_ifs with hgt
    · rw [gt_iff_lt, abs_of_pos (sub_pos.mpr hc), abs_of_pos (sub_pos.mpr hstraight)] at hgt
      linarith
    · exact le_rfl
  simp only [stepFlatter, slopes_eq_ok h.step_ne, secant_eq_ok hs, hopen] at hp
  cases hp
  simp only [Scalar.greatest_real, Scalar.least_real]
  exact le_max_of_le_right (min_le_min_left high (hfar _ (cubic_over hlt hhigh)))

theorem stepSteeper_eq_ok (low high : ℝ) (h : b.closed = true → b.other.step ≠ t.step) :
    ∃ p, b.stepSteeper t low high = .ok p ∧ (b.closed = false → b.best.step < t.step → p = high) := by
  rw [stepSteeper]
  by_cases hc : b.closed = true
  · have hq := quotient_eq_ok (a := 3.0 * (t.value - b.other.value)) (sub_ne_zero.mpr (h hc))
    rw [if_pos hc]
    refine exists_bind_ok (congrArg (Except.map _) hq) ⟨_, rfl, fun hopen => ?_⟩
    exact absurd (hopen.symm.trans hc) Bool.false_ne_true
  · rw [if_neg hc]
    exact ⟨_, rfl, fun _ hlt => if_pos hlt⟩

/-- A trial downhill of the best step moves the bracket on. A higher one is stepped back from; as long as the bracket
is open, a lower one is stepped over. -/
theorem update_eq_ok (low high : ℝ) (h : Downhill b.best t) (hother : b.closed = true → b.other.step ≠ t.step) :
    ∃ p, b.update t low high = .ok (b.replace t, p) ∧
      (b.best.value < t.value → b.best.step < t.step → b.best.step < p ∧ p < t.step) ∧
      ((b.replace t).closed = false → b.best.step < t.step → t.slope < 0 → low ≤ high → t.step < high →
        t.step < p ∧ low ≤ p ∧ p ≤ high) := by
  rw [update, replace]
  by_cases hv : b.best.value < t.value
  · obtain ⟨p, hp, hin⟩ := stepHigher_eq_ok h hv
    refine ⟨p, ?_, fun _ => hin, ?_⟩
    · simp [hv, hp, Except.map]
    · simp [hv]
  · rw [if_neg hv, if_neg hv]
    by_cases ho : b.best.slope * t.slope < 0
    · obtain ⟨p, hp⟩ := stepOpposed_eq_ok h ho
      refine ⟨p, ?_, fun hlt => absurd hlt hv, ?_⟩
      · simp [opposed_iff.mpr ho, ho, hp, Except.map]
      · simp [ho]
    · rw [if_neg (mt opposed_iff.mp ho), if_neg ho]
      by_cases hf : |t.slope| < |b.best.slope|
      · obtain ⟨p, hp, hover⟩ := stepFlatter_eq_ok low high h hf
        refine ⟨p, ?_, fun hlt => absurd hlt hv, hover⟩
        simp [hf, hp, Except.map]
      · obtain ⟨p, hp, hover⟩ := stepSteeper_eq_ok low high hother
        refine ⟨p, ?_, fun hlt => absurd hlt hv, fun hopen hlt _ hle hhigh => ?_⟩
        · simp [hf, hp, Except.map]
        · obtain rfl := hover hopen hlt
          exact ⟨hhigh, hle, le_rfl⟩

/-- A trial that leaves the bracket open is stepped over by the whole interval, or at least by the straight line. -/
theorem update_far {b' : Bracket ℝ} {low high p : ℝ} (h : Downhill b.best t) (hlt : b.best.step < t.step)
    (ht : t.slope < 0) (hhigh : t.step < high) (hu : b.update t low high = .ok (b', p)) (hopen : b'.closed = false) :
    p = high ∨ b.best.slope < t.slope ∧
      min high (t.step + t.slope / (t.slope - b.best.slope) * (b.best.step - t.step)) ≤ p := by
  have hx := h.slope_neg hlt
  rw [update] at hu
  split_ifs at hu with hv ho hf
  · obtain ⟨q, -, hq⟩ := map_eq_ok hu
    cases hq
    exact absurd hopen.symm Bool.false_ne_true
  · obtain ⟨q, -, hq⟩ := map_eq_ok hu
    cases hq
    exact absurd hopen.symm Bool.false_ne_true
  · obtain ⟨q, hp, hq⟩ := map_eq_ok hu
    cases hq
    refine .inr ⟨?_, stepFlatter_far h hf hopen hlt ht hhigh hp⟩
    rw [Scalar.abs_real, Scalar.abs_real, abs_of_neg hx, abs_of_neg ht] at hf
    linarith
  · obtain ⟨q, hp, hq⟩ := map_eq_ok hu
    cases hq
    have hb : b.closed = false := hopen
    rw [stepSteeper, if_neg (by simp [hb])] at hp
    cases hp
    exact .inl (if_pos hlt)

end BoxBfgs.Bracket
