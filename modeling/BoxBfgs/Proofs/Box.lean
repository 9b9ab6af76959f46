import BoxBfgs.Proofs.Basic
import BoxBfgs.Box

namespace BoxBfgs

namespace Limit

variable {l u : Limit ℝ} {a c e : ℝ}

@[simp] theorem atLeast_negInf (a : ℝ) : atLeast a .negInf = true := by simp [atLeast]

@[simp] theorem atLeast_fin (a c : ℝ) : atLeast a (.fin c) = true ↔ c ≤ a := by simp [atLeast]

@[simp] theorem atLeast_posInf (a : ℝ) : atLeast a .posInf = false := by simp [atLeast]

@[simp] theorem atMost_negInf (a : ℝ) : atMost a .negInf = false := by simp [atMost]

@[simp] theorem atMost_fin (a c : ℝ) : atMost a (.fin c) = true ↔ a ≤ c := by simp [atMost]

@[simp] theorem atMost_posInf (a : ℝ) : atMost a .posInf = true := by simp [atMost]

@[simp] theorem finite?_fin (a : ℝ) : (fin a).finite? = some a := by simp [finite?]

theorem finite?_eq_some : l.finite? = some a ↔ l = .fin a := by
  cases l <;> simp [finite?]

def Between (l u : Limit ℝ) (a : ℝ) : Prop := l.atLeast a = true ∧ u.atMost a = true

noncomputable def clamp (l u : Limit ℝ) (a : ℝ) : ℝ := u.lower (l.raise a)

theorem raise_fin (a c : ℝ) : raise (.fin c) a = max c a := by
  by_cases h : c ≤ a
  · simp [raise, h]
  · simp [raise, value, h, (not_le.mp h).le]

theorem lower_fin (a c : ℝ) : lower (.fin c) a = min c a := by
  by_cases h : a ≤ c
  · simp [lower, h]
  · simp [lower, value, h, (not_le.mp h).le]

theorem raise_of_atLeast (h : l.atLeast a = true) : l.raise a = a := by simp [raise, h]

theorem lower_of_atMost (h : u.atMost a = true) : u.lower a = a := by simp [lower, h]

theorem atLeast_mono (h : l.atLeast a = true) (hle : a ≤ c) : l.atLeast c = true := by
  cases l with
  | negInf => simp
  | fin b => exact (atLeast_fin c b).mpr (((atLeast_fin a b).mp h).trans hle)
  | posInf => simp at h

theorem atMost_mono (h : u.atMost c = true) (hle : a ≤ c) : u.atMost a = true := by
  cases u with
  | negInf => simp at h
  | fin b => exact (atMost_fin a b).mpr (hle.trans ((atMost_fin c b).mp h))
  | posInf => simp

theorem eq_fin_of_atLeast_of_atMost (hle : l.atLeast a = true) (hge : l.atMost a = true) : l = .fin a := by
  cases l with
  | negInf => simp at hge
  | fin b => rw [le_antisymm ((atLeast_fin a b).mp hle) ((atMost_fin a b).mp hge)]
  | posInf => simp at hle

theorem undercuts_of_atMost (h : u.atMost c = true) (hlt : a < c) : u.undercuts a = true := by
  cases u with
  | negInf => simp at h
  | fin b => exact decide_eq_true (hlt.trans_le ((atMost_fin c b).mp h))
  | posInf => simp [undercuts]

theorem exceeds_of_atLeast (h : l.atLeast c = true) (hlt : c < a) : l.exceeds a = true := by
  cases l with
  | negInf => simp [exceeds]
  | fin b => exact decide_eq_true (((atLeast_fin c b).mp h).trans_lt hlt)
  | posInf => simp at h

theorem Between.segment (ha : Between l u a) (hc : Between l u c) (hae : a ≤ e) (hec : e ≤ c) : Between l u e :=
  ⟨atLeast_mono ha.1 hae, atMost_mono hc.2 hec⟩

theorem Between.along {d t b : ℝ} (ha : Between l u a) (hc : Between l u (a + b * d)) (ht : 0 ≤ t) (htb : t ≤ b) :
    Between l u (a + t * d) := by
  rcases le_total 0 d with hd | hd
  · exact ha.segment hc (le_add_of_nonneg_right (mul_nonneg ht hd))
      (add_le_add_right (mul_le_mul_of_nonneg_right htb hd) a)
  · exact hc.segment ha (add_le_add_right (mul_le_mul_of_nonpos_right htb hd) a)
      (add_le_of_nonpos_right (mul_nonpos_of_nonneg_of_nonpos ht hd))

theorem clamp_of_between (h : Between l u a) : clamp l u a = a := by
  rw [clamp, raise_of_atLeast h.1, lower_of_atMost h.2]

theorem clamp_between (h : Between l u c) (a : ℝ) : Between l u (clamp l u a) := by
  have hraise : l.atLeast (l.raise a) = true := by
    cases l with
    | negInf => simp
    | fin b => simp [raise_fin]
    | posInf => simp [Between] at h
  rw [clamp]
  cases u with
  | negInf => simp [Between] at h
  | fin b =>
      have hb : l.atLeast b = true := atLeast_mono h.1 ((atMost_fin c b).mp h.2)
      rw [lower_fin]
      refine ⟨?_, (atMost_fin _ b).mpr (min_le_left _ _)⟩
      rcases min_choice b (l.raise a) with hm | hm
      · rwa [hm]
      · rwa [hm]
  | posInf =>
      rw [lower_of_atMost (atMost_posInf _)]
      exact ⟨hraise, atMost_posInf _⟩

theorem clamp_of_le (h : Between l u a) (hl : l.atMost a = true) (hle : c ≤ a) : clamp l u c = a := by
  rw [clamp, eq_fin_of_atLeast_of_atMost h.1 hl, raise_fin, max_eq_left hle, lower_of_atMost h.2]

theorem clamp_of_ge (h : Between l u a) (hu : u.atLeast a = true) (hle : a ≤ c) : clamp l u c = a := by
  rw [clamp, raise_of_atLeast (atLeast_mono h.1 hle), eq_fin_of_atLeast_of_atMost hu h.2, lower_fin, min_eq_left hle]

end Limit

namespace Box

variable {n : Nat} {b : Box ℝ n} {x d : Vector ℝ n} {t cap : ℝ}

def Inside (b : Box ℝ n) (x : Vector ℝ n) : Prop :=
  ∀ i, Limit.Between (b.lower.get i) (b.upper.get i) (x.get i)

theorem get_project (i : Fin n) : (b.project x).get i = Limit.clamp (b.lower.get i) (b.upper.get i) (x.get i) := by
  simp [project, Limit.clamp]

theorem get_projectedGradient (b : Box ℝ n) (x g : Vector ℝ n) (i : Fin n) : (b.projectedGradient x g).get i =
    Limit.clamp (b.lower.get i) (b.upper.get i) (x.get i - g.get i) - x.get i := by
  rw [projectedGradient, Vec.get_sub, Pi.sub_apply, get_project, Vec.get_sub, Pi.sub_apply]

theorem project_of_inside (h : b.Inside x) : b.project x = x := by
  refine Vec.ext_get (funext fun i => ?_)
  rw [get_project, Limit.clamp_of_between (h i)]

theorem project_inside (h : b.Inside x) (v : Vector ℝ n) : b.Inside (b.project v) := by
  intro i
  rw [get_project]
  exact Limit.clamp_between (h i) _

theorem gradient_ne_zero {g : Vector ℝ n} (hx : b.Inside x) (h : (b.projectedGradient x g).get ≠ 0) : g.get ≠ 0 := by
  intro h0
  have hg : x - g = x := Vec.ext_get (by rw [Vec.get_sub, h0, sub_zero])
  rw [projectedGradient, hg, project_of_inside hx, Vec.get_sub, sub_self] at h
  exact h rfl

theorem le_foldl_minimum {a : ℝ} {l : List ℝ} : t ≤ l.foldl Scalar.minimum a ↔ t ≤ a ∧ ∀ c ∈ l, t ≤ c := by
  induction l generalizing a with
  | nil => simp
  | cons c l ih => simp [ih, and_assoc]

theorem le_nearest {l : List ℝ} : t ≤ nearest cap l ↔ t ≤ cap ∧ ∀ a ∈ l, t ≤ a := by
  cases l with
  | nil => simp [nearest]
  | cons a l => simp [nearest, le_foldl_minimum]

theorem mem_roomAbove {a : ℝ} : a ∈ b.roomAbove x d ↔
    ∃ i u, 0 < d.get i ∧ b.upper.get i = .fin u ∧ (u - x.get i) / d.get i = a := by
  simp only [roomAbove, List.mem_filterMap, List.mem_finRange, true_and]
  refine exists_congr fun i => ?_
  by_cases h : 0 < d.get i
  · simp [h, Limit.finite?_eq_some]
  · simp [h]

theorem mem_roomBelow {a : ℝ} : a ∈ b.roomBelow x d ↔
    ∃ i l, d.get i < 0 ∧ b.lower.get i = .fin l ∧ (l - x.get i) / d.get i = a := by
  simp only [roomBelow, List.mem_filterMap, List.mem_finRange, true_and]
  refine exists_congr fun i => ?_
  by_cases h : d.get i < 0
  · simp [h, Limit.finite?_eq_some]
  · simp [h]

theorem maxStep_nonneg : 0 ≤ b.maxStep x d cap := by simp [maxStep]

theorem le_maxStep (h : t ≤ cap) (ha : ∀ a ∈ b.roomAbove x d, t ≤ a) (hb : ∀ a ∈ b.roomBelow x d, t ≤ a) :
    t ≤ b.maxStep x d cap := by
  rw [maxStep, Scalar.greatest_real]
  exact le_max_of_le_left (le_nearest.mpr ⟨le_nearest.mpr ⟨h, ha⟩, hb⟩)

theorem maxStep_spec (ht : 0 < t) (h : t ≤ b.maxStep x d cap) :
    t ≤ cap ∧ (∀ a ∈ b.roomAbove x d, t ≤ a) ∧ ∀ a ∈ b.roomBelow x d, t ≤ a := by
  rw [maxStep, Scalar.greatest_real, le_max_iff, le_nearest, le_nearest] at h
  obtain ⟨⟨hcap, ha⟩, hb⟩ := h.resolve_right ht.not_ge
  exact ⟨hcap, ha, hb⟩

/-- The box holds the way up to the largest step. -/
theorem inside_of_le_maxStep (hx : b.Inside x) (ht : 0 ≤ t) (h : t ≤ b.maxStep x d cap) :
    b.Inside (x + Vec.scale t d) := by
  rcases ht.eq_or_lt with rfl | hpos
  · intro i
    simpa using hx i
  · obtain ⟨-, ha, hb⟩ := maxStep_spec hpos h
    intro i
    rw [Vec.get_add, Pi.add_apply, Vec.get_scale]
    rcases lt_trichotomy (d.get i) 0 with hd | hd | hd
    · have hback : x.get i + t * d.get i ≤ x.get i := by nlinarith
      refine ⟨?_, Limit.atMost_mono (hx i).2 hback⟩
      cases hl : b.lower.get i with
      | negInf => simp
      | fin l =>
          have hroom := hb _ (mem_roomBelow.mpr ⟨i, l, hd, hl, rfl⟩)
          rw [le_div_iff_of_neg hd] at hroom
          exact (Limit.atLeast_fin _ _).mpr (by linarith)
      | posInf =>
          have hi := (hx i).1
          simp [hl] at hi
    · simpa [hd] using hx i
    · have hforth : x.get i ≤ x.get i + t * d.get i := by nlinarith
      refine ⟨Limit.atLeast_mono (hx i).1 hforth, ?_⟩
      cases hu : b.upper.get i with
      | negInf =>
          have hi := (hx i).2
          simp [hu] at hi
      | fin u =>
          have hroom := ha _ (mem_roomAbove.mpr ⟨i, u, hd, hu, rfl⟩)
          rw [le_div_iff₀ hd] at hroom
          exact (Limit.atMost_fin _ _).mpr (by linarith)
      | posInf => simp

theorem le_maxStep_of_inside (h : b.Inside (x + Vec.scale t d)) (hcap : t ≤ cap) : t ≤ b.maxStep x d cap := by
  refine le_maxStep hcap (fun a ha => ?_) (fun a ha => ?_)
  · obtain ⟨i, u, hd, hu, rfl⟩ := mem_roomAbove.mp ha
    have hi := (h i).2
    rw [hu, Limit.atMost_fin, Vec.get_add, Pi.add_apply, Vec.get_scale] at hi
    rw [le_div_iff₀ hd]
    linarith
  · obtain ⟨i, l, hd, hl, rfl⟩ := mem_roomBelow.mp ha
    have hi := (h i).1
    rw [hl, Limit.atLeast_fin, Vec.get_add, Pi.add_apply, Vec.get_scale] at hi
    rw [le_div_iff_of_neg hd]
    linarith

theorem maxStep_le (hcap : 0 ≤ cap) : b.maxStep x d cap ≤ cap := by
  rw [maxStep, Scalar.greatest_real, max_le_iff]
  exact ⟨(le_nearest.mp (le_nearest.mp le_rfl).1).1, hcap⟩

/-- The box holds the way between two points of it. -/
theorem Inside.along {c : ℝ} (hx : b.Inside x) (hc : b.Inside (x + Vec.scale c d)) (ht : 0 ≤ t) (htc : t ≤ c) :
    b.Inside (x + Vec.scale t d) := by
  intro i
  have hi := hc i
  rw [Vec.get_add, Pi.add_apply, Vec.get_scale] at hi ⊢
  exact (hx i).along hi ht htc

/-- From a point of the box the largest step lies between zero and the cap, and the box holds the way up to it. Where it
is not the cap, the box holds nothing of the way beyond. -/
theorem maxStep_maximal (hx : b.Inside x) (hcap : 0 ≤ cap) :
    (0 ≤ b.maxStep x d cap ∧ b.maxStep x d cap ≤ cap) ∧
      (∀ t, 0 ≤ t → t ≤ b.maxStep x d cap → b.Inside (x + Vec.scale t d)) ∧
      (b.maxStep x d cap < cap → ∀ t, b.maxStep x d cap < t → ¬b.Inside (x + Vec.scale t d)) := by
  refine ⟨⟨maxStep_nonneg, maxStep_le hcap⟩, fun t ht hle => inside_of_le_maxStep hx ht hle, fun hlt t ht hin => ?_⟩
  -- A step beyond the cap is first cut back to the cap, which is beyond the largest step as well.
  have hback : b.Inside (x + Vec.scale (min t cap) d) :=
    hx.along hin (le_min (maxStep_nonneg.trans ht.le) hcap) (min_le_left t cap)
  exact (lt_min ht hlt).not_ge (le_maxStep_of_inside hback (min_le_right t cap))

/-- Two limits and two open sides. -/
def corner : Box ℝ 2 := { lower := #v[.fin 0, .negInf], upper := #v[.posInf, .fin 1] }

theorem maxStep_maximal_corner : corner.Inside #v[0, 0] ∧ (0 : ℝ) ≤ 10 ∧ corner.maxStep #v[0, 0] #v[3, 2] 10 = 1 / 2 ∧
    (∀ t, 0 ≤ t → t ≤ 1 / 2 → corner.Inside (#v[0, 0] + Vec.scale t #v[3, 2])) ∧
    ∀ t, 1 / 2 < t → ¬corner.Inside (#v[0, 0] + Vec.scale t #v[3, 2]) := by
  have hx : corner.Inside #v[0, 0] := by
    intro i
    fin_cases i <;> simp [corner, Limit.Between, Vec.get_eq_getElem]
  have hhalf : corner.Inside (#v[0, 0] + Vec.scale (1 / 2) #v[3, 2]) := by
    intro i
    rw [Vec.get_add, Pi.add_apply, Vec.get_scale]
    fin_cases i <;> norm_num [corner, Limit.Between, Vec.get_eq_getElem]
  have hroom : (1 : ℝ) / 2 ∈ corner.roomAbove #v[0, 0] #v[3, 2] :=
    mem_roomAbove.mpr ⟨1, 1, by norm_num [Vec.get_eq_getElem], rfl, by norm_num [Vec.get_eq_getElem]⟩
  have hle : corner.maxStep #v[0, 0] #v[3, 2] 10 ≤ 1 / 2 := by
    by_contra hlt
    exact hlt ((maxStep_spec ((by norm_num : (0 : ℝ) < 1 / 2).trans (not_le.mp hlt)) le_rfl).2.1 _ hroom)
  have hstep := le_antisymm hle (le_maxStep_of_inside hhalf (by norm_num))
  obtain ⟨-, hup, hbeyond⟩ := maxStep_maximal (d := #v[3, 2]) hx (by norm_num : (0 : ℝ) ≤ 10)
  rw [hstep] at hup hbeyond
  exact ⟨hx, by norm_num, hstep, hup, hbeyond (by norm_num)⟩

end Box

end BoxBfgs
