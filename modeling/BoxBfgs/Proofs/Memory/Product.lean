import BoxBfgs.Proofs.Factor
import BoxBfgs.Proofs.Memory.Compact
import BoxBfgs.Proofs.Memory.Reachable

namespace BoxBfgs.Memory

open Matrix

variable {n : Nat} {m : Memory ℝ n}

noncomputable def diagonal (m : Memory ℝ n) : Matrix (Fin m.size) (Fin m.size) ℝ :=
  Matrix.diagonal fun j => (m.pairs.get j).curvature

noncomputable def lowerTriangle (m : Memory ℝ n) : Matrix (Fin m.size) (Fin m.size) ℝ :=
  Matrix.of fun i j => if j < i then (m.sMatrix.toMatrixᵀ * m.yMatrix.toMatrix) i j else 0

/-- The middle matrix as the pairs give it. -/
noncomputable def blockMatrix (m : Memory ℝ n) :
    Matrix (Fin (m.size + m.size)) (Fin (m.size + m.size)) ℝ :=
  (Matrix.fromBlocks (-m.diagonal) m.lowerTriangleᵀ m.lowerTriangle
    (m.theta • (m.sMatrix.toMatrixᵀ * m.sMatrix.toMatrix))).reindex finSumFinEquiv finSumFinEquiv

def upper {k : Nat} (z : Fin (k + k) → ℝ) : Fin k → ℝ := fun j => z (Fin.castAdd k j)

def lower {k : Nat} (z : Fin (k + k) → ℝ) : Fin k → ℝ := fun j => z (Fin.natAdd k j)

theorem eq_of_parts {k : Nat} {x z : Fin (k + k) → ℝ} (hu : upper x = upper z) (hl : lower x = lower z) : x = z := by
  funext i
  refine Fin.addCases (fun j => ?_) (fun j => ?_) i
  · exact congrFun hu j
  · exact congrFun hl j

theorem mulVec_split {ι : Type} {k : Nat} (A : Matrix ι (Fin (k + k)) ℝ) (z : Fin (k + k) → ℝ) (i : ι) :
    (A *ᵥ z) i = ∑ j, A i (Fin.castAdd k j) * upper z j + ∑ j, A i (Fin.natAdd k j) * lower z j := by
  rw [Matrix.mulVec, dotProduct, Fin.sum_univ_add]
  rfl

theorem product_products (a b : Pair ℝ n → Vector ℝ n) (pairs : List (Pair ℝ n)) (i j : Fin pairs.length) :
    product (products a b pairs) i j = (a (pairs.get i)).get ⬝ᵥ (b (pairs.get j)).get := by
  simp [product, products]

theorem upper_transposeW (v : Vector ℝ n) (j : Fin m.size) :
    upper (m.transposeW v).get j = (m.pairs.get j).y.get ⬝ᵥ v.get := by
  simp only [upper, transposeW, blocks, Vec.get_ofFn, Fin.addCases_left, Vec.dot_real]

theorem lower_transposeW (v : Vector ℝ n) (j : Fin m.size) :
    lower (m.transposeW v).get j = m.theta * ((m.pairs.get j).s.get ⬝ᵥ v.get) := by
  simp only [lower, transposeW, blocks, Vec.get_ofFn, Fin.addCases_right, Vec.dot_real]

theorem get_timesW (u : Vector ℝ (m.size + m.size)) :
    (m.timesW u).get = ∑ j, upper u.get j • (m.pairs.get j).y.get +
      m.theta • ∑ j, lower u.get j • (m.pairs.get j).s.get := by
  funext i
  simp only [timesW, Vec.get_ofFn, Vec.dot_real, dotProduct, Pi.add_apply, Pi.smul_apply, Finset.sum_apply,
    smul_eq_mul, upper, lower, mul_comm]

section

variable {k : Nat} {places : Vector (Fin n) k}

theorem rowsW_castAdd (a : Fin k) (j : Fin m.size) :
    (m.rowsW places).entry a (Fin.castAdd m.size j) = (m.pairs.get j).y.get (places.get a) := by
  simp only [Dense.entry, rowsW, rowW, blocks, Vec.get_map, Vec.get_ofFn, Fin.addCases_left]

theorem rowsW_natAdd (a : Fin k) (j : Fin m.size) :
    (m.rowsW places).entry a (Fin.natAdd m.size j) = m.theta * (m.pairs.get j).s.get (places.get a) := by
  simp only [Dense.entry, rowsW, rowW, blocks, Vec.get_map, Vec.get_ofFn, Fin.addCases_right]

end

namespace Sound

variable (h : m.Sound)

include h

theorem sty_entry (i j : Fin m.size) :
    product m.sty i j = (m.pairs.get i).s.get ⬝ᵥ (m.pairs.get j).y.get := by
  rw [h.sty, product_products]

theorem sts_entry (i j : Fin m.size) :
    product m.sts i j = (m.pairs.get i).s.get ⬝ᵥ (m.pairs.get j).s.get := by
  rw [h.sts, product_products]

theorem middle_upper_upper (a b : Fin m.size) :
    m.middle.entry (Fin.castAdd _ a) (Fin.castAdd _ b) = if a = b then -(m.pairs.get a).curvature else 0 := by
  simp only [middle, Dense.entry_ofFn, Fin.addCases_left, h.sty_entry, Pair.curvature]

theorem middle_upper_lower (a b : Fin m.size) :
    m.middle.entry (Fin.castAdd _ a) (Fin.natAdd _ b) =
      if a < b then (m.pairs.get b).s.get ⬝ᵥ (m.pairs.get a).y.get else 0 := by
  simp only [middle, Dense.entry_ofFn, Fin.addCases_left, Fin.addCases_right, h.sty_entry]

theorem middle_lower_upper (a b : Fin m.size) :
    m.middle.entry (Fin.natAdd _ a) (Fin.castAdd _ b) =
      if b < a then (m.pairs.get a).s.get ⬝ᵥ (m.pairs.get b).y.get else 0 := by
  simp only [middle, Dense.entry_ofFn, Fin.addCases_left, Fin.addCases_right, h.sty_entry]

theorem middle_lower_lower (a b : Fin m.size) :
    m.middle.entry (Fin.natAdd _ a) (Fin.natAdd _ b) =
      m.theta * ((m.pairs.get a).s.get ⬝ᵥ (m.pairs.get b).s.get) := by
  simp only [middle, Dense.entry_ofFn, Fin.addCases_right, h.sts_entry]

theorem toMatrix_middle : m.middle.toMatrix = m.blockMatrix := by
  have hsy (i j : Fin m.size) : (m.sMatrix.toMatrixᵀ * m.yMatrix.toMatrix) i j =
      (m.pairs.get i).s.get ⬝ᵥ (m.pairs.get j).y.get := by
    simp [Matrix.mul_apply, sMatrix, yMatrix, dotProduct]
  have hss (i j : Fin m.size) : (m.sMatrix.toMatrixᵀ * m.sMatrix.toMatrix) i j =
      (m.pairs.get i).s.get ⬝ᵥ (m.pairs.get j).s.get := by
    simp [Matrix.mul_apply, sMatrix, dotProduct]
  ext i j
  rw [Dense.toMatrix_apply, blockMatrix, Matrix.reindex_apply, Matrix.submatrix_apply]
  refine Fin.addCases (fun a => ?_) (fun a => ?_) i <;> refine Fin.addCases (fun b => ?_) (fun b => ?_) j
  · rw [h.middle_upper_upper, finSumFinEquiv_symm_apply_castAdd, finSumFinEquiv_symm_apply_castAdd,
      Matrix.fromBlocks_apply₁₁, diagonal, Matrix.neg_apply, Matrix.diagonal_apply, neg_ite, neg_zero]
  · rw [h.middle_upper_lower, finSumFinEquiv_symm_apply_castAdd, finSumFinEquiv_symm_apply_natAdd,
      Matrix.fromBlocks_apply₁₂, lowerTriangle, Matrix.transpose_apply, Matrix.of_apply, hsy]
  · rw [h.middle_lower_upper, finSumFinEquiv_symm_apply_castAdd, finSumFinEquiv_symm_apply_natAdd,
      Matrix.fromBlocks_apply₂₁, lowerTriangle, Matrix.of_apply, hsy]
  · rw [h.middle_lower_lower, finSumFinEquiv_symm_apply_natAdd, finSumFinEquiv_symm_apply_natAdd,
      Matrix.fromBlocks_apply₂₂, Matrix.smul_apply, hss, smul_eq_mul]

theorem middle_isSymm : m.middle.toMatrix.IsSymm := by
  rw [h.toMatrix_middle, blockMatrix, Matrix.reindex_apply]
  refine Matrix.IsSymm.submatrix (Matrix.IsSymm.fromBlocks ?_ (transpose_transpose _) ?_) _
  · exact (isSymm_diagonal _).neg
  · refine Matrix.IsSymm.smul ?_ _
    rw [Matrix.IsSymm, transpose_mul, transpose_transpose]

theorem middle_mulVec_iff (z : Fin (m.size + m.size) → ℝ) (v : Vector ℝ n) :
    m.middle.toMatrix *ᵥ z = (m.transposeW v).get ↔ Compact m.theta m.pairs.get (upper z) (lower z) v.get := by
  have hupper (j : Fin m.size) : upper (m.middle.toMatrix *ᵥ z) j = -((m.pairs.get j).curvature * upper z j) +
      ∑ i, (if j < i then (m.pairs.get i).s.get ⬝ᵥ (m.pairs.get j).y.get else 0) * lower z i := by
    rw [upper, mulVec_split]
    simp only [Dense.toMatrix_apply, h.middle_upper_upper, h.middle_upper_lower, ite_mul, neg_mul, zero_mul,
      Finset.sum_ite_eq, Finset.mem_univ, if_true]
  have hlower (i : Fin m.size) : lower (m.middle.toMatrix *ᵥ z) i =
      ∑ j, (if j < i then (m.pairs.get i).s.get ⬝ᵥ (m.pairs.get j).y.get else 0) * upper z j +
        m.theta * ∑ j, ((m.pairs.get i).s.get ⬝ᵥ (m.pairs.get j).s.get) * lower z j := by
    rw [lower, mulVec_split]
    simp only [Dense.toMatrix_apply, h.middle_lower_upper, h.middle_lower_lower, Finset.mul_sum, mul_assoc]
  constructor
  · intro hz
    refine ⟨fun j => ?_, fun i => ?_⟩
    · rw [← hupper, hz, upper_transposeW]
    · rw [← hlower, hz, lower_transposeW]
  · intro hc
    refine eq_of_parts (funext fun j => ?_) (funext fun i => ?_)
    · rw [hupper, hc.upper, upper_transposeW]
    · rw [hlower, hc.lower, lower_transposeW]

/-- The middle matrix is invertible whatever steps are stored, be there even more of them than coordinates. -/
theorem middle_isUnit : IsUnit m.middle.toMatrix := by
  rw [Matrix.isUnit_iff_isUnit_det, isUnit_iff_ne_zero]
  intro hdet
  obtain ⟨z, hz, hzero⟩ := Matrix.exists_mulVec_eq_zero_iff.mpr hdet
  have hr : (Vector.replicate n (0 : ℝ)).get = 0 := funext fun i => Vec.get_replicate 0 i
  have ht : (m.transposeW (.replicate n 0)).get = 0 := by
    refine eq_of_parts (funext fun j => ?_) (funext fun j => ?_)
    · rw [upper_transposeW, hr, dotProduct_zero]
      rfl
    · rw [lower_transposeW, hr, dotProduct_zero, mul_zero]
      rfl
  have hc := (h.middle_mulVec_iff z (.replicate n 0)).mp (by rw [hzero, ht])
  rw [hr] at hc
  obtain ⟨hu, hl⟩ := hc.eq_zero h.theta_pos h.curvature_pos
  exact hz (eq_of_parts hu hl)

/-- What the middle system leaves of a vector is its product with the matrix of the model. -/
theorem mulVec_of_middle {z : Vector ℝ (m.size + m.size)} {v : Vector ℝ n}
    (hz : m.middle.toMatrix *ᵥ z.get = (m.transposeW v).get) :
    bfgs m.theta m.pairs *ᵥ v.get = m.theta • v.get - (m.timesW z).get := by
  have hc := ((h.middle_mulVec_iff z.get v).mp hz).bfgs_mulVec h.theta_pos h.curvature_pos
  rw [List.ofFn_get] at hc
  rw [hc, Compact.value, get_timesW, sub_sub]

theorem bfgs_posDef : (bfgs m.theta m.pairs).PosDef :=
  BoxBfgs.bfgs_posDef h.theta_pos fun p hp => Memory.curvature_pos (h.admissible p hp)

/-- A solve with the middle matrix answers with the solution. -/
theorem solveMiddle_eq_ok {u z : Vector ℝ (m.size + m.size)} (hz : m.solveMiddle u = .ok z) :
    m.middle.toMatrix *ᵥ z.get = u.get := by
  rw [solveMiddle] at hz
  split_ifs at hz with he
  · cases hz
    have hsize : m.size + m.size = 0 := by
      have hl : m.pairs = [] := by simpa [isEmpty] using he
      rw [size, hl]
      rfl
    funext i
    exact absurd i.isLt (by omega)
  · split at hz
    · cases hz
    · rename_i f hf
      rw [Factor.solve?_real] at hz
      cases hz
      exact Factor.ofMatrix_solve h.middle_isSymm (h.factor_eq_ok.mp hf) u

end Sound

section

variable {p : Pair ℝ n}

theorem reachable_single (hp : admissible p = true) : ((empty n 1 : Memory ℝ n).append p).Reachable := by
  have hempty : (empty n 1 : Memory ℝ n).Reachable := .empty (by decide)
  refine .push hempty (p := p) ?_
  rw [push, hp]
  rfl

theorem theta_single : ((empty n 1 : Memory ℝ n).append p).theta = (p.y.get ⬝ᵥ p.y.get) / (p.y.get ⬝ᵥ p.s.get) := by
  simp [append]

theorem middle_single (hp : admissible p = true) : ((empty n 1 : Memory ℝ n).append p).middle =
    (⟨#v[#v[-p.curvature, 0], #v[0, (p.y.get ⬝ᵥ p.y.get) / (p.y.get ⬝ᵥ p.s.get) * (p.s.get ⬝ᵥ p.s.get)]]⟩ :
      Dense ℝ 2 2) := by
  have h := (reachable_single hp).sound
  let o : Fin ((empty n 1 : Memory ℝ n).append p).size := ⟨0, Nat.one_pos⟩
  refine Dense.ext_entry (r := 2) (c := 2) fun i j => ?_
  match i, j with
  | 0, 0 => exact (h.middle_upper_upper o o).trans (if_pos rfl)
  | 0, 1 => exact (h.middle_upper_lower o o).trans (if_neg (lt_irrefl o))
  | 1, 0 => exact (h.middle_lower_upper o o).trans (if_neg (lt_irrefl o))
  | 1, 1 => exact (h.middle_lower_lower o o).trans (congrArg (· * _) theta_single)

/-- A memory of one pair has a factor unless the two diagonal entries of its middle matrix are too far apart. -/
theorem factor_single (hp : admissible p = true) {a c : ℝ} (ha : p.curvature = a)
    (hc : (p.y.get ⬝ᵥ p.y.get) / (p.y.get ⬝ᵥ p.s.get) * (p.s.get ⬝ᵥ p.s.get) = c)
    (hfirst : Scalar.epsilon * max (max |a| |c|) 1 * 2 < |a|)
    (hlast : Scalar.epsilon * max (max |a| |c|) 1 * 2 < |c|) :
    ∃ f, ((empty n 1 : Memory ℝ n).append p).factor = .ok f := by
  obtain ⟨f, hf⟩ := Factor.ofMatrix_diagonal hfirst hlast
  rw [← ha, ← hc] at hf
  exact ⟨f, (reachable_single hp).sound.factor_eq_ok.mpr ((congrArg (Factor.ofMatrix (n := 2)) (middle_single hp)).trans hf)⟩

variable {c : ℝ} (h : p.UnitStep c)

include h

theorem admissible_unitStep : Memory.admissible p = true := by
  have hsmall := mul_le_mul_of_nonneg_left h.le Scalar.epsilon_pos.le
  have hlt : Scalar.epsilon * c < 1 := by linarith [Scalar.epsilon_lt]
  have hcurvature : p.s.get ⬝ᵥ p.y.get = 1 := h.curvature
  simpa [Memory.admissible, hcurvature, h.change] using hlt

theorem theta_unitStep : ((empty n 1 : Memory ℝ n).append p).theta = c := by
  have hcurvature : p.s.get ⬝ᵥ p.y.get = 1 := h.curvature
  rw [theta_single, h.change, dotProduct_comm, hcurvature, div_one]

theorem factor_unitStep : ∃ f, ((empty n 1 : Memory ℝ n).append p).factor = .ok f := by
  have hsmall := mul_le_mul_of_nonneg_left h.le Scalar.epsilon_pos.le
  have hlt : Scalar.epsilon * c * 2 < 1 := by linarith [Scalar.epsilon_lt]
  have hmax : max (max |1| |c|) 1 = c := by
    rw [abs_one, abs_of_nonneg (zero_le_one.trans h.one_le), max_eq_right h.one_le, max_eq_left h.one_le]
  apply factor_single (admissible_unitStep h) h.curvature
  · rw [← theta_single, theta_unitStep h, h.step, mul_one]
  · rwa [hmax, abs_one]
  · rw [hmax, abs_of_nonneg (zero_le_one.trans h.one_le)]
    exact hlt.trans_le h.one_le

end

/-- The second step goes to where the gradient turned along the first one. -/
noncomputable def crossMemory : Memory ℝ 2 :=
  ((empty 2 2).append ⟨.ofFn ![1, 0], .ofFn ![1, 1]⟩).append ⟨.ofFn ![0, 1], .ofFn ![0, 1]⟩

theorem cross_reachable : crossMemory.Reachable := by
  have hsmall : (Scalar.epsilon : ℝ) < 1 / 100 := Scalar.epsilon_lt
  have hfirst : admissible (⟨.ofFn ![1, 0], .ofFn ![1, 1]⟩ : Pair ℝ 2) = true := by
    norm_num [admissible, Vec.dot_real, dotProduct, Fin.sum_univ_two]
    linarith
  have hsecond : admissible (⟨.ofFn ![0, 1], .ofFn ![0, 1]⟩ : Pair ℝ 2) = true := by
    norm_num [admissible, Vec.dot_real, dotProduct, Fin.sum_univ_two]
    linarith
  have hempty : (empty 2 2 : Memory ℝ 2).Reachable := .empty (by decide)
  have hone : ((empty 2 2 : Memory ℝ 2).append ⟨.ofFn ![1, 0], .ofFn ![1, 1]⟩).Reachable := by
    apply Reachable.push hempty (p := ⟨.ofFn ![1, 0], .ofFn ![1, 1]⟩)
    rw [push, hfirst]
    rfl
  apply Reachable.push hone (p := ⟨.ofFn ![0, 1], .ofFn ![0, 1]⟩)
  rw [push, hsecond]
  rfl

theorem cross_middle : crossMemory.middle =
    (⟨#v[#v[-1, 0, 0, 1], #v[0, -1, 0, 0], #v[0, 0, 1, 0], #v[1, 0, 0, 1]]⟩ : Dense ℝ 4 4) := by
  have htheta : crossMemory.theta = 1 := by norm_num [crossMemory, append, Vec.dot_real, dotProduct, Fin.sum_univ_two]
  have hsty : crossMemory.sty = [[1, 0], [1, 1]] := by
    norm_num [crossMemory, append, empty, Vec.dot_real, dotProduct, Fin.sum_univ_two]
  have hsts : crossMemory.sts = [[1, 0], [0, 1]] := by
    norm_num [crossMemory, append, empty, Vec.dot_real, dotProduct, Fin.sum_univ_two]
  have htable : crossMemory.middle = (⟨#v[
      #v[-product crossMemory.sty 0 0, 0, 0, product crossMemory.sty 1 0],
      #v[0, -product crossMemory.sty 1 1, 0, 0],
      #v[0, 0, crossMemory.theta * product crossMemory.sts 0 0, crossMemory.theta * product crossMemory.sts 0 1],
      #v[product crossMemory.sty 1 0, 0, crossMemory.theta * product crossMemory.sts 1 0,
        crossMemory.theta * product crossMemory.sts 1 1]]⟩ : Dense ℝ 4 4) := by
    apply Dense.ext_entry (r := 4) (c := 4)
    intro i j
    fin_cases i <;> fin_cases j <;> rfl
  rw [htable, hsty, hsts, htheta]
  norm_num [product]
  rfl

/-- The first pivot reaches the last row only, and what it leaves is diagonal. -/
theorem cross_factor : ∃ f, crossMemory.factor = .ok f := by
  have hsmall : (Scalar.epsilon : ℝ) < 1 / 100 := Scalar.epsilon_lt
  set a : Dense ℝ 4 4 := ⟨#v[#v[-1, 0, 0, 1], #v[0, -1, 0, 0], #v[0, 0, 1, 0], #v[1, 0, 0, 1]]⟩ with ha
  have hsymm : a.toMatrix.IsSymm := by
    apply Matrix.IsSymm.ext
    intro i j
    fin_cases i <;> fin_cases j <;> rfl
  have htol : Factor.tolerance a < 1 := by
    have hmax : a.maxAbs = 1 := by simp [a, Dense.maxAbs, Vec.maxAbs, Vector.foldl]
    rw [Factor.tolerance, hmax]
    norm_num
    linarith
  obtain ⟨f, hf⟩ : ∃ f, Factor.ofMatrix a = .ok f := by
    rw [Factor.ofMatrix_eq hsymm]
    apply Factor.exists_factorize
    · intro i
      fin_cases i <;> simp [a, Dense.entry, Vec.get_eq_getElem]
      exact Factor.ratio_le_one
    · simpa [a, Dense.entry, Vec.get_eq_getElem] using htol
    · apply Factor.exists_factorize_diagonal
      · intro i j h
        rw [Factor.eliminateSingle_entry h.le]
        fin_cases i <;> fin_cases j <;> simp_all [Dense.entry, Vec.get_eq_getElem]
      · intro i
        rw [Factor.eliminateSingle_entry le_rfl]
        fin_cases i <;> norm_num [a, Dense.entry, Vec.get_eq_getElem] <;> linarith
  exact ⟨f, cross_reachable.sound.factor_eq_ok.mpr ((congrArg (Factor.ofMatrix (n := 4)) cross_middle).trans hf)⟩

/-- The product of the limited memory, over the reals: the middle matrix is invertible for whatever history, and the
compact form gives the product with the matrix that the pairs make from the oldest to the newest. -/
theorem hessianProduct_eq_bfgs (h : m.Reachable) (hne : ¬m.isEmpty) :
    m.middle.toMatrix = m.blockMatrix ∧ IsUnit m.middle.toMatrix ∧
      ∀ f, m.factor = .ok f → ∀ v, ∃ r, m.hessianProduct v = .ok r ∧
        r.get = bfgs (scaling m.pairs) m.pairs *ᵥ v.get := by
  refine ⟨h.sound.toMatrix_middle, h.sound.middle_isUnit, fun f hf v => ?_⟩
  have hs : m.solveMiddle (m.transposeW v) = .ok (f.solve (m.transposeW v)) := by
    rw [solveMiddle, if_neg hne, hf]
    simp only [Factor.solve?_real]
  refine ⟨Vec.scale m.theta v - m.timesW (f.solve (m.transposeW v)), ?_, ?_⟩
  · rw [hessianProduct, if_neg hne, hs]
    rfl
  · rw [← h.sound.theta, h.sound.mulVec_of_middle (h.sound.solveMiddle_eq_ok hs), Vec.get_sub, Vec.get_scale_eq]

theorem hessianProduct_eq_bfgs_cross : crossMemory.Reachable ∧ ¬crossMemory.isEmpty ∧
    (∃ f, crossMemory.factor = .ok f) ∧ IsUnit crossMemory.middle.toMatrix ∧
    ∀ v, ∃ r, crossMemory.hessianProduct v = .ok r ∧ r.get = bfgs (scaling crossMemory.pairs) crossMemory.pairs *ᵥ v.get := by
  have he : ¬crossMemory.isEmpty := by simp [crossMemory, append, isEmpty]
  obtain ⟨f, hf⟩ := cross_factor
  obtain ⟨-, hunit, hproduct⟩ := hessianProduct_eq_bfgs cross_reachable he
  exact ⟨cross_reachable, he, ⟨f, hf⟩, hunit, hproduct f hf⟩

end BoxBfgs.Memory
