import BoxBfgs.Proofs.Memory.Update

namespace BoxBfgs

open Matrix

variable {n k : Nat}

/-- The system with the middle matrix that a vector leads to, by its two blocks of unknowns: `u` for the changes of the
gradient and `w` for the steps. -/
structure Compact (theta : ℝ) (f : Fin k → Pair ℝ n) (u w : Fin k → ℝ) (v : Fin n → ℝ) : Prop where
  upper : ∀ j, -((f j).curvature * u j) + ∑ i, (if j < i then (f i).s.get ⬝ᵥ (f j).y.get else 0) * w i =
    (f j).y.get ⬝ᵥ v
  lower : ∀ i, ∑ j, (if j < i then (f i).s.get ⬝ᵥ (f j).y.get else 0) * u j +
    theta * ∑ j, ((f i).s.get ⬝ᵥ (f j).s.get) * w j = theta * ((f i).s.get ⬝ᵥ v)

namespace Compact

variable {theta : ℝ} {f : Fin k → Pair ℝ n} {u w : Fin k → ℝ} {v : Fin n → ℝ}

/-- What the unknowns take off the scaled vector. -/
def value (theta : ℝ) (f : Fin k → Pair ℝ n) (u w : Fin k → ℝ) (v : Fin n → ℝ) : Fin n → ℝ :=
  theta • v - ∑ j, u j • (f j).y.get - theta • ∑ j, w j • (f j).s.get

theorem value_init (theta : ℝ) (f : Fin (k + 1) → Pair ℝ n) (u w : Fin (k + 1) → ℝ) (v : Fin n → ℝ) :
    value theta f u w v =
      value theta (fun j => f j.castSucc) (fun j => u j.castSucc) (fun j => w j.castSucc)
        (v - w (Fin.last k) • (f (Fin.last k)).s.get) - u (Fin.last k) • (f (Fin.last k)).y.get := by
  simp only [value, Fin.sum_univ_castSucc, smul_add, smul_sub]
  abel

/-- The older pairs see the vector without the newest step's part of it. -/
theorem init {f : Fin (k + 1) → Pair ℝ n} {u w : Fin (k + 1) → ℝ} (h : Compact theta f u w v) :
    Compact theta (fun j => f j.castSucc) (fun j => u j.castSucc) (fun j => w j.castSucc)
      (v - w (Fin.last k) • (f (Fin.last k)).s.get) where
  upper j := by
    have hj := h.upper j.castSucc
    simp only [Fin.sum_univ_castSucc, Fin.castSucc_lt_castSucc_iff, Fin.castSucc_lt_last, if_true] at hj
    rw [dotProduct_sub, dotProduct_smul, smul_eq_mul, ← hj, dotProduct_comm (f j.castSucc).y.get]
    ring
  lower i := by
    have hi := h.lower i.castSucc
    have hl : ¬Fin.last k < i.castSucc := not_lt.mpr (Fin.le_last _)
    simp only [Fin.sum_univ_castSucc, Fin.castSucc_lt_castSucc_iff, if_neg hl, zero_mul, add_zero] at hi
    rw [dotProduct_sub, dotProduct_smul, smul_eq_mul, mul_sub, ← hi]
    ring

theorem upper_last {f : Fin (k + 1) → Pair ℝ n} {u w : Fin (k + 1) → ℝ} (h : Compact theta f u w v) :
    -((f (Fin.last k)).curvature * u (Fin.last k)) = (f (Fin.last k)).y.get ⬝ᵥ v := by
  have hl := h.upper (Fin.last k)
  have hnone (i : Fin (k + 1)) : ¬Fin.last k < i := not_lt.mpr (Fin.le_last i)
  simpa only [if_neg (hnone _), zero_mul, Finset.sum_const_zero, add_zero] using hl

/-- The last equation says that the newest step has no curvature left. -/
theorem lower_last {f : Fin (k + 1) → Pair ℝ n} {u w : Fin (k + 1) → ℝ} (h : Compact theta f u w v) :
    (f (Fin.last k)).s.get ⬝ᵥ
      value theta (fun j => f j.castSucc) (fun j => u j.castSucc) (fun j => w j.castSucc)
        (v - w (Fin.last k) • (f (Fin.last k)).s.get) = 0 := by
  have hl := h.lower (Fin.last k)
  simp only [Fin.sum_univ_castSucc, Fin.castSucc_lt_last, if_true, lt_irrefl, if_false, zero_mul, add_zero] at hl
  simp only [value, dotProduct_sub, dotProduct_smul, dotProduct_sum, smul_eq_mul]
  have hy : ∑ j : Fin k, u j.castSucc * ((f (Fin.last k)).s.get ⬝ᵥ (f j.castSucc).y.get) =
      ∑ j : Fin k, ((f (Fin.last k)).s.get ⬝ᵥ (f j.castSucc).y.get) * u j.castSucc :=
    Finset.sum_congr rfl fun j _ => mul_comm _ _
  have hs : ∑ j : Fin k, w j.castSucc * ((f (Fin.last k)).s.get ⬝ᵥ (f j.castSucc).s.get) =
      ∑ j : Fin k, ((f (Fin.last k)).s.get ⬝ᵥ (f j.castSucc).s.get) * w j.castSucc :=
    Finset.sum_congr rfl fun j _ => mul_comm _ _
  rw [hy, hs]
  linarith

/-- The compact form of the model: a solution of the middle system gives the product with the matrix that the pairs
make one after another. -/
theorem bfgs_mulVec (ht : 0 < theta) (hf : ∀ j, 0 < (f j).curvature) (h : Compact theta f u w v) :
    bfgs theta (List.ofFn f) *ᵥ v = value theta f u w v := by
  induction k generalizing v with
  | zero => simp [bfgs, value, smul_mulVec]
  | succ k ih =>
      have hB : (bfgs theta (List.ofFn fun j : Fin k => f j.castSucc)).PosDef := by
        refine bfgs_posDef ht fun p hp => ?_
        obtain ⟨j, rfl⟩ := List.mem_ofFn.mp hp
        exact hf j.castSucc
      have hv := ih (fun j => hf j.castSucc) h.init
      set B := bfgs theta (List.ofFn fun j : Fin k => f j.castSucc)
      set p := f (Fin.last k)
      have hw : w (Fin.last k) = p.share B v := by
        have hzero := h.lower_last
        rw [← hv, mulVec_sub, mulVec_smul, dotProduct_sub, dotProduct_smul, sub_eq_zero, smul_eq_mul] at hzero
        rw [Pair.share, hzero, mul_div_cancel_right₀ _ (posDef_pos hB (Pair.s_ne_zero (hf (Fin.last k)))).ne']
      have hu : u (Fin.last k) = -((p.y.get ⬝ᵥ v) / p.curvature) := by
        rw [← h.upper_last, neg_div, neg_neg, mul_div_cancel_left₀ _ (hf (Fin.last k)).ne']
      rw [List.ofFn_succ', List.concat_eq_append, bfgs_append, Pair.update_mulVec (posDef_isSymm hB), value_init, ← hv,
        hw, hu, neg_smul, sub_neg_eq_add]

/-- The squares that a solution for zero adds up to. -/
theorem squares (h : Compact theta f u w 0) :
    ∑ j, (f j).curvature * (u j * u j) + theta * ((∑ j, w j • (f j).s.get) ⬝ᵥ ∑ j, w j • (f j).s.get) = 0 := by
  have hupper (j : Fin k) : (f j).curvature * (u j * u j) =
      ∑ i, w i * ((if j < i then (f i).s.get ⬝ᵥ (f j).y.get else 0) * u j) := by
    have hj := h.upper j
    rw [dotProduct_zero, neg_add_eq_zero] at hj
    rw [← mul_assoc, hj, Finset.sum_mul]
    exact Finset.sum_congr rfl fun i _ => by ring
  have hgram : (∑ j, w j • (f j).s.get) ⬝ᵥ ∑ j, w j • (f j).s.get =
      ∑ i, w i * ∑ j, ((f i).s.get ⬝ᵥ (f j).s.get) * w j := by
    rw [sum_dotProduct]
    refine Finset.sum_congr rfl fun i _ => ?_
    rw [smul_dotProduct, dotProduct_sum, smul_eq_mul]
    refine congrArg (w i * ·) (Finset.sum_congr rfl fun j _ => ?_)
    rw [dotProduct_smul, smul_eq_mul, mul_comm]
  rw [Finset.sum_congr rfl fun j _ => hupper j, Finset.sum_comm, hgram, Finset.mul_sum, ← Finset.sum_add_distrib]
  refine Finset.sum_eq_zero fun i _ => ?_
  have hi := h.lower i
  rw [dotProduct_zero, mul_zero] at hi
  rw [← Finset.mul_sum, mul_left_comm theta, ← mul_add, hi, mul_zero]

/-- Only zero solves the middle system of zero, also where the steps depend on each other. -/
theorem eq_zero (ht : 0 < theta) (hf : ∀ j, 0 < (f j).curvature) (h : Compact theta f u w 0) : u = 0 ∧ w = 0 := by
  have hsq := h.squares
  have hnonneg (j : Fin k) : 0 ≤ (f j).curvature * (u j * u j) := mul_nonneg (hf j).le (mul_self_nonneg _)
  have hS : 0 ≤ theta * ((∑ j, w j • (f j).s.get) ⬝ᵥ ∑ j, w j • (f j).s.get) :=
    mul_nonneg ht.le (Finset.sum_nonneg fun i _ => mul_self_nonneg _)
  have hsum := Finset.sum_nonneg fun j (_ : j ∈ Finset.univ) => hnonneg j
  have hu (j : Fin k) : u j = 0 := by
    have hj := (Finset.sum_eq_zero_iff_of_nonneg fun j _ => hnonneg j).mp (by linarith) j (Finset.mem_univ j)
    simpa [(hf j).ne'] using hj
  have hw : ∑ j, w j • (f j).s.get = 0 := by
    have hz : theta * ((∑ j, w j • (f j).s.get) ⬝ᵥ ∑ j, w j • (f j).s.get) = 0 := by linarith
    exact dotProduct_self_eq_zero.mp ((mul_eq_zero.mp hz).resolve_left ht.ne')
  refine ⟨funext hu, funext fun j => ?_⟩
  induction j using Fin.strong_induction_on with
  | h j ih =>
      -- the newer pairs add nothing by the upper equation, and the older ones nothing by induction
      have hnewer : ∑ i, (if j < i then (f i).s.get ⬝ᵥ (f j).y.get else 0) * w i = 0 := by
        have hj := h.upper j
        rwa [hu, mul_zero, neg_zero, zero_add, dotProduct_zero] at hj
      have hall : ∑ i, w i * ((f i).s.get ⬝ᵥ (f j).y.get) = 0 := by
        have hz := congrArg (· ⬝ᵥ (f j).y.get) hw
        simpa only [sum_dotProduct, smul_dotProduct, smul_eq_mul, zero_dotProduct] using hz
      have hsplit (i : Fin k) : w i * ((f i).s.get ⬝ᵥ (f j).y.get) =
          (if j < i then (f i).s.get ⬝ᵥ (f j).y.get else 0) * w i + if i = j then (f j).curvature * w j else 0 := by
        rcases lt_trichotomy i j with hij | rfl | hij
        · simp [ih i hij, hij.ne]
        · simp [Pair.curvature, mul_comm]
        · simp [hij, hij.ne', mul_comm]
      rw [Finset.sum_congr rfl fun i _ => hsplit i, Finset.sum_add_distrib, hnewer, zero_add, Finset.sum_ite_eq',
        if_pos (Finset.mem_univ j)] at hall
      exact (mul_eq_zero.mp hall).resolve_left (hf j).ne'

end Compact

end BoxBfgs
