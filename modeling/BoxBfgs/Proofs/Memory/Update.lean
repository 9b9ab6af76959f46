import BoxBfgs.Proofs.Basic
import BoxBfgs.Memory

namespace BoxBfgs

open Matrix

variable {n : Nat}

theorem dotProduct_mulVec_comm {B : Matrix (Fin n) (Fin n) ℝ} (hB : B.IsSymm) (u v : Fin n → ℝ) :
    u ⬝ᵥ B *ᵥ v = v ⬝ᵥ B *ᵥ u := by
  rw [dotProduct_mulVec, ← mulVec_transpose, hB.eq, dotProduct_comm]

theorem dotProduct_self_pos {v : Fin n → ℝ} (hv : v ≠ 0) : 0 < v ⬝ᵥ v := by
  simpa using dotProduct_star_self_pos_iff.mpr hv

theorem posDef_isSymm {B : Matrix (Fin n) (Fin n) ℝ} (hB : B.PosDef) : B.IsSymm :=
  isHermitian_iff_isSymm.mp hB.isHermitian

theorem posDef_pos {B : Matrix (Fin n) (Fin n) ℝ} (hB : B.PosDef) {v : Fin n → ℝ} (hv : v ≠ 0) :
    0 < v ⬝ᵥ B *ᵥ v := by
  simpa using hB.dotProduct_mulVec_pos hv

theorem posDef_nonneg {B : Matrix (Fin n) (Fin n) ℝ} (hB : B.PosDef) (v : Fin n → ℝ) : 0 ≤ v ⬝ᵥ B *ᵥ v := by
  simpa using hB.posSemidef.dotProduct_mulVec_nonneg v

namespace Pair

variable (B : Matrix (Fin n) (Fin n) ℝ) (p : Pair ℝ n)

def curvature : ℝ := p.s.get ⬝ᵥ p.y.get

/-- The change of a model's matrix by a pair: the curvature along the step is taken out, and the one that was
measured is put in its place. -/
noncomputable def update : Matrix (Fin n) (Fin n) ℝ :=
  B - (1 / (p.s.get ⬝ᵥ B *ᵥ p.s.get)) • vecMulVec (B *ᵥ p.s.get) (B *ᵥ p.s.get) +
    (1 / (p.y.get ⬝ᵥ p.s.get)) • vecMulVec p.y.get p.y.get

/-- A pair with a step of length one, whose change of the gradient is one along the step and not large across it. -/
structure UnitStep (p : Pair ℝ n) (c : ℝ) : Prop where
  step : p.s.get ⬝ᵥ p.s.get = 1
  curvature : p.curvature = 1
  change : p.y.get ⬝ᵥ p.y.get = c
  one_le : 1 ≤ c
  le : c ≤ 32

/-- How much of the step is in a vector, as the matrix measures it. -/
noncomputable def share (v : Fin n → ℝ) : ℝ := (p.s.get ⬝ᵥ B *ᵥ v) / (p.s.get ⬝ᵥ B *ᵥ p.s.get)

variable {B p}

theorem s_ne_zero (hp : 0 < p.curvature) : p.s.get ≠ 0 := by
  intro h
  rw [curvature, h, zero_dotProduct] at hp
  exact lt_irrefl 0 hp

theorem y_ne_zero (hp : 0 < p.curvature) : p.y.get ≠ 0 := by
  intro h
  rw [curvature, h, dotProduct_zero] at hp
  exact lt_irrefl 0 hp

theorem update_mulVec (hB : B.IsSymm) (v : Fin n → ℝ) :
    p.update B *ᵥ v = B *ᵥ (v - p.share B v • p.s.get) + ((p.y.get ⬝ᵥ v) / p.curvature) • p.y.get := by
  have hs : (B *ᵥ p.s.get) ⬝ᵥ v = p.s.get ⬝ᵥ B *ᵥ v := by
    rw [dotProduct_comm, dotProduct_mulVec_comm hB]
  rw [update, add_mulVec, sub_mulVec, smul_mulVec, smul_mulVec, vecMulVec_mulVec, vecMulVec_mulVec, mulVec_sub,
    mulVec_smul, hs, share, curvature, dotProduct_comm p.s.get p.y.get]
  funext i
  simp only [Pi.add_apply, Pi.sub_apply, Pi.smul_apply, smul_eq_mul, op_smul_eq_smul]
  ring

theorem UnitStep.update_mulVec {c : ℝ} (h : p.UnitStep c) (v : Fin n → ℝ) : p.update (c • 1) *ᵥ v =
    c • (v - (p.s.get ⬝ᵥ v) • p.s.get) + (p.y.get ⬝ᵥ v) • p.y.get := by
  have hc : c ≠ 0 := (zero_lt_one.trans_le h.one_le).ne'
  have hsymm : (c • (1 : Matrix (Fin n) (Fin n) ℝ)).IsSymm := isSymm_one.smul _
  have hshare : p.share (c • 1) v = p.s.get ⬝ᵥ v := by
    rw [share, smul_mulVec, smul_mulVec, one_mulVec, one_mulVec, dotProduct_smul, dotProduct_smul, h.step, smul_eq_mul,
      smul_eq_mul, mul_one, mul_div_cancel_left₀ _ hc]
  rw [Pair.update_mulVec hsymm, hshare, h.curvature, div_one, smul_mulVec, one_mulVec]

theorem update_isSymm (hB : B.IsSymm) : (p.update B).IsSymm := by
  have hv (u : Fin n → ℝ) : (vecMulVec u u).IsSymm := transpose_vecMulVec u u
  exact (hB.sub ((hv _).smul _)).add ((hv _).smul _)

/-- What is left of a vector without its share of the step has no curvature along the step. -/
theorem step_orthogonal (hB : B.PosDef) (hp : 0 < p.curvature) (v : Fin n → ℝ) :
    p.s.get ⬝ᵥ B *ᵥ (v - p.share B v • p.s.get) = 0 := by
  have hs := (posDef_pos hB (s_ne_zero hp)).ne'
  rw [mulVec_sub, mulVec_smul, dotProduct_sub, dotProduct_smul, share, smul_eq_mul, div_mul_cancel₀ _ hs, sub_self]

/-- The changed matrix takes the step to the change of the gradient along it. -/
theorem update_mulVec_step (hB : B.PosDef) (hp : 0 < p.curvature) : p.update B *ᵥ p.s.get = p.y.get := by
  have hshare : p.share B p.s.get = 1 := div_self (posDef_pos hB (s_ne_zero hp)).ne'
  have hys : p.y.get ⬝ᵥ p.s.get = p.curvature := dotProduct_comm _ _
  rw [update_mulVec (posDef_isSymm hB), hshare, one_smul, sub_self, mulVec_zero, zero_add, hys, div_self hp.ne', one_smul]

/-- What undoes the older matrix undoes the changed one as well, once the step's part that the pair took out is put
back. -/
theorem update_mulVec_restored (hB : B.PosDef) (hp : 0 < p.curvature) {q r : Fin n → ℝ} {a : ℝ}
    (ha : p.curvature * a = p.s.get ⬝ᵥ q) (hr : B *ᵥ r = q - a • p.y.get) :
    p.update B *ᵥ (r + (a - (p.y.get ⬝ᵥ r) / p.curvature) • p.s.get) = q := by
  set b := a - (p.y.get ⬝ᵥ r) / p.curvature with hb
  have hzero : p.s.get ⬝ᵥ B *ᵥ r = 0 := by
    have hsy : p.s.get ⬝ᵥ p.y.get = p.curvature := rfl
    rw [hr, dotProduct_sub, dotProduct_smul, smul_eq_mul, ← ha, hsy, mul_comm, sub_self]
  have hshare : p.share B (r + b • p.s.get) = b := by
    rw [share, mulVec_add, mulVec_smul, dotProduct_add, dotProduct_smul, hzero, zero_add, smul_eq_mul,
      mul_div_cancel_right₀ _ (posDef_pos hB (s_ne_zero hp)).ne']
  have hy : (p.y.get ⬝ᵥ (r + b • p.s.get)) / p.curvature = a := by
    have hys : p.y.get ⬝ᵥ p.s.get = p.curvature := dotProduct_comm _ _
    rw [dotProduct_add, dotProduct_smul, smul_eq_mul, hys, add_div, mul_div_cancel_right₀ _ hp.ne', hb,
      add_sub_cancel]
  rw [update_mulVec (posDef_isSymm hB), hshare, hy, add_sub_cancel_right, hr, sub_add_cancel]

theorem update_posDef (hB : B.PosDef) (hp : 0 < p.curvature) : (p.update B).PosDef := by
  have hsymm := posDef_isSymm hB
  refine PosDef.of_dotProduct_mulVec_pos (isHermitian_iff_isSymm.mpr (update_isSymm hsymm)) fun v hv => ?_
  rw [star_trivial, update_mulVec hsymm]
  set t := p.share B v
  set w := v - t • p.s.get with hw
  have hzero := step_orthogonal hB hp v
  have hv' : v = w + t • p.s.get := by rw [hw, sub_add_cancel]
  have hBw : v ⬝ᵥ B *ᵥ w = w ⬝ᵥ B *ᵥ w := by
    nth_rewrite 1 [hv']
    rw [add_dotProduct, smul_dotProduct, hzero, smul_zero, add_zero]
  rw [dotProduct_add, hBw, dotProduct_smul, smul_eq_mul, dotProduct_comm v p.y.get, div_mul_eq_mul_div]
  by_cases h : w = 0
  · have hvs : v = t • p.s.get := by rw [hv', h, zero_add]
    have ht : t ≠ 0 := by
      intro ht
      exact hv (by rw [hvs, ht, zero_smul])
    have hyv : p.y.get ⬝ᵥ v = t * p.curvature := by
      rw [hvs, dotProduct_smul, smul_eq_mul, curvature, dotProduct_comm]
    rw [h, zero_dotProduct, zero_add, hyv]
    exact div_pos (mul_self_pos.mpr (mul_ne_zero ht hp.ne')) hp
  · exact add_pos_of_pos_of_nonneg (posDef_pos hB h) (div_nonneg (mul_self_nonneg _) hp.le)

end Pair

/-- The matrix of the model: the scaled identity, changed by the pairs from the oldest to the newest one. -/
noncomputable def bfgs (theta : ℝ) (pairs : List (Pair ℝ n)) : Matrix (Fin n) (Fin n) ℝ :=
  pairs.foldl (fun B p => p.update B) (theta • 1)

theorem bfgs_append (theta : ℝ) (pairs : List (Pair ℝ n)) (p : Pair ℝ n) :
    bfgs theta (pairs ++ [p]) = p.update (bfgs theta pairs) := by
  rw [bfgs, List.foldl_append]
  rfl

theorem bfgs_posDef {theta : ℝ} (ht : 0 < theta) {pairs : List (Pair ℝ n)} (hp : ∀ p ∈ pairs, 0 < p.curvature) :
    (bfgs theta pairs).PosDef := by
  induction pairs using List.reverseRecOn with
  | nil => exact PosDef.one.smul ht
  | append_singleton pairs p ih =>
      rw [bfgs_append]
      exact Pair.update_posDef (ih fun q hq => hp q (by simp [hq])) (hp p (by simp))

end BoxBfgs
