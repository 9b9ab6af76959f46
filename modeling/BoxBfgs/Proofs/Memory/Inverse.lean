import BoxBfgs.Proofs.Memory.Model

namespace BoxBfgs.Memory

open Matrix

variable {n : Nat} {theta : ℝ} {m : Memory ℝ n} {f : Factor ℝ (m.size + m.size)}

/-- The matrix that the pairs make undoes the way down and up through them, the newest one first. -/
theorem bfgs_mulVec_twoLoop (ht : 0 < theta) {l : List (Pair ℝ n)} (hl : ∀ p ∈ l, 0 < p.curvature) (q : Vector ℝ n) :
    bfgs theta l.reverse *ᵥ (twoLoop theta (l.map fun p => (p.curvature, p)) q).get = q.get := by
  induction l generalizing q with
  | nil =>
      rw [List.map_nil, twoLoop, Vec.get_divide_eq, List.reverse_nil, bfgs, List.foldl_nil, smul_mulVec, one_mulVec,
        smul_inv_smul₀ ht.ne']
  | cons p older ih =>
      have hp : 0 < p.curvature := hl p List.mem_cons_self
      have holder : ∀ p' ∈ older, 0 < p'.curvature := fun p' hp' => hl p' (List.mem_cons_of_mem _ hp')
      have hB : (bfgs theta older.reverse).PosDef :=
        BoxBfgs.bfgs_posDef ht fun p' hp' => holder p' (List.mem_reverse.mp hp')
      set a := 1 / p.curvature * Vec.dot p.s q with ha
      set r := twoLoop theta (older.map fun p => (p.curvature, p)) (q - Vec.scale a p.y) with hr
      have hloop : twoLoop theta ((p :: older).map fun p => (p.curvature, p)) q =
          r + Vec.scale (a - 1 / p.curvature * Vec.dot p.y r) p.s := rfl
      have hold : bfgs theta older.reverse *ᵥ r.get = q.get - a • p.y.get := by
        rw [hr, ih holder, Vec.get_sub, Vec.get_scale_eq]
      rw [hloop, List.reverse_cons, bfgs_append, Vec.get_add, Vec.get_scale_eq, Vec.dot_real, one_div_mul_eq_div]
      refine Pair.update_mulVec_restored hB hp ?_ hold
      rw [ha, Vec.dot_real, one_div_mul_eq_div, mul_div_cancel₀ _ hp.ne']

namespace Sound

variable (h : m.Sound)

include h

theorem curvatures_eq : m.curvatures = m.pairs.map Pair.curvature := by
  refine List.ext_getElem (by simp [curvatures]) fun i hi hj => ?_
  have hp : i < m.pairs.length := by simpa using hj
  simp [curvatures, product, h.sty, products, hp, Pair.curvature]

theorem hessian_mulVec_inverse (q : Vector ℝ n) : m.hessian *ᵥ (m.inverseHessianProduct q).get = q.get := by
  have hzip : (m.curvatures.zip m.pairs).reverse = m.pairs.reverse.map fun p => (p.curvature, p) := by
    rw [h.curvatures_eq, List.zip_eq_zipWith, List.zipWith_map_left, List.zipWith_self, List.map_reverse]
  have hloop := bfgs_mulVec_twoLoop h.theta_pos (l := m.pairs.reverse)
    (fun p hp => Memory.curvature_pos (h.admissible p (List.mem_reverse.mp hp))) q
  rw [List.reverse_reverse, ← hzip] at hloop
  exact hloop

theorem inverse_of_hessian_mulVec {q r : Vector ℝ n} (hr : m.hessian *ᵥ r.get = q.get) :
    m.inverseHessianProduct q = r := by
  refine Vec.ext_get (mulVec_injective_of_isUnit h.hessian_posDef.isUnit ?_)
  exact (h.hessian_mulVec_inverse q).trans hr.symm

theorem dot_inverse_pos {q : Vector ℝ n} (hq : q.get ≠ 0) : 0 < q.get ⬝ᵥ (m.inverseHessianProduct q).get := by
  have hinv := h.hessian_mulVec_inverse q
  have hne : (m.inverseHessianProduct q).get ≠ 0 := by
    intro h0
    rw [h0, mulVec_zero] at hinv
    exact hq hinv.symm
  have hpos := posDef_pos h.hessian_posDef hne
  rwa [hinv, dotProduct_comm] at hpos

theorem exists_hessianProduct (hf : m.factor = .ok f) (v : Vector ℝ n) :
    ∃ r, m.hessianProduct v = .ok r ∧ r.get = m.hessian *ᵥ v.get := by
  rw [hessianProduct]
  split_ifs with he
  · refine ⟨_, rfl, ?_⟩
    rw [hessian_of_isEmpty he, smul_mulVec, one_mulVec, Vec.get_scale_eq]
  · obtain ⟨u, hu⟩ := exists_solveMiddle hf (m.transposeW v)
    refine ⟨_, congrArg (Except.map _) hu, ?_⟩
    rw [h.hessian_mulVec hu, Vec.get_sub, Vec.get_scale_eq, timesW_eq_mulVec]

end Sound

/-- The product by all pairs at once, which solves the middle system, and the way down and up through them undo each
other. -/
theorem hessianProduct_inverseHessianProduct (h : m.Reachable) (hf : m.factor = .ok f) (v : Vector ℝ n) :
    m.hessianProduct (m.inverseHessianProduct v) = .ok v ∧
      ∃ r, m.hessianProduct v = .ok r ∧ m.inverseHessianProduct r = v := by
  obtain ⟨q, hq, hqv⟩ := h.sound.exists_hessianProduct hf (m.inverseHessianProduct v)
  obtain ⟨r, hr, hrv⟩ := h.sound.exists_hessianProduct hf v
  rw [h.sound.hessian_mulVec_inverse] at hqv
  exact ⟨Vec.ext_get hqv ▸ hq, r, hr, h.sound.inverse_of_hessian_mulVec hrv.symm⟩

theorem hessianProduct_inverseHessianProduct_cross : crossMemory.Reachable ∧ ¬crossMemory.isEmpty ∧
    (∃ f, crossMemory.factor = .ok f) ∧ ∀ v, crossMemory.hessianProduct (crossMemory.inverseHessianProduct v) = .ok v ∧
      ∃ r, crossMemory.hessianProduct v = .ok r ∧ crossMemory.inverseHessianProduct r = v := by
  have he : ¬crossMemory.isEmpty := by simp [crossMemory, append, isEmpty]
  obtain ⟨f, hf⟩ := cross_factor
  exact ⟨cross_reachable, he, ⟨f, hf⟩, hessianProduct_inverseHessianProduct cross_reachable hf⟩

end BoxBfgs.Memory
