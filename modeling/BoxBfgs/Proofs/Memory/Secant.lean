import BoxBfgs.Proofs.Memory.Inverse

namespace BoxBfgs.Memory

open Matrix

variable {n : Nat} {m : Memory ℝ n} {p : Pair ℝ n}

namespace Sound

variable (h : m.Sound)

include h

/-- The older pairs make up a positive definite matrix, which the newest one changes so that it fits that pair. -/
theorem hessian_mulVec_newest (hp : m.pairs.getLast? = some p) : m.hessian *ᵥ p.s.get = p.y.get := by
  obtain ⟨older, hpairs⟩ := List.getLast?_eq_some_iff.mp hp
  have hcurved : ∀ q ∈ older ++ [p], 0 < q.curvature := by
    intro q hq
    rw [← hpairs] at hq
    exact Memory.curvature_pos (h.admissible q hq)
  have hB : (bfgs m.theta older).PosDef := by
    apply BoxBfgs.bfgs_posDef h.theta_pos
    intro q hq
    exact hcurved q (List.mem_append_left _ hq)
  rw [hessian, hpairs, bfgs_append]
  exact Pair.update_mulVec_step hB (hcurved p (List.mem_append_right _ List.mem_cons_self))

theorem get_inverseHessianProduct (v : Vector ℝ n) : (m.inverseHessianProduct v).get = m.hessian⁻¹ *ᵥ v.get := by
  have hunit : IsUnit m.hessian.det := (isUnit_iff_isUnit_det _).mp h.hessian_posDef.isUnit
  calc (m.inverseHessianProduct v).get
      = m.hessian⁻¹ *ᵥ (m.hessian *ᵥ (m.inverseHessianProduct v).get) := by
        rw [mulVec_mulVec, nonsing_inv_mul _ hunit, one_mulVec]
    _ = m.hessian⁻¹ *ᵥ v.get := by rw [h.hessian_mulVec_inverse]

theorem hessianProduct_newest {f : Factor ℝ (m.size + m.size)} (hf : m.factor = .ok f)
    (hp : m.pairs.getLast? = some p) : m.hessianProduct p.s = .ok p.y := by
  obtain ⟨r, hr, hrs⟩ := h.exists_hessianProduct hf p.s
  rw [h.hessian_mulVec_newest hp] at hrs
  rw [hr, Vec.ext_get hrs]

end Sound

/-- Whatever the history, the two products are those with a symmetric positive definite matrix and with its inverse, and
both fit the newest pair. So the way down the inverse is one along which the slope is negative. -/
theorem hessianProduct_posDef (hm : m.Reachable) :
    m.hessian.IsSymm ∧ m.hessian.PosDef ∧ m.hessian⁻¹.IsSymm ∧ m.hessian⁻¹.PosDef ∧
      (∀ f, m.factor = .ok f → ∀ v, ∃ r, m.hessianProduct v = .ok r ∧ r.get = m.hessian *ᵥ v.get) ∧
      (∀ v, (m.inverseHessianProduct v).get = m.hessian⁻¹ *ᵥ v.get) ∧
      (∀ p, m.pairs.getLast? = some p → (∀ f, m.factor = .ok f → m.hessianProduct p.s = .ok p.y) ∧
        m.inverseHessianProduct p.y = p.s) ∧
      ∀ g : Vector ℝ n, g.get ≠ 0 → g.get ⬝ᵥ (-m.inverseHessianProduct g).get < 0 := by
  have h := hm.sound
  have hB := h.hessian_posDef
  refine ⟨posDef_isSymm hB, hB, posDef_isSymm hB.inv, hB.inv, fun f hf v => h.exists_hessianProduct hf v,
    h.get_inverseHessianProduct, fun p hp => ⟨fun f hf => h.hessianProduct_newest hf hp, ?_⟩, fun g hg => ?_⟩
  · exact h.inverse_of_hessian_mulVec (h.hessian_mulVec_newest hp)
  · rw [Vec.get_neg, dotProduct_neg]
    exact neg_lt_zero.mpr (h.dot_inverse_pos hg)

theorem hessianProduct_posDef_cross : crossMemory.Reachable ∧ ¬crossMemory.isEmpty ∧
    (∃ f, crossMemory.factor = .ok f) ∧ crossMemory.hessian.PosDef ∧
    crossMemory.hessianProduct (.ofFn ![0, 1]) = .ok (.ofFn ![0, 1]) ∧
    crossMemory.inverseHessianProduct (.ofFn ![0, 1]) = .ofFn ![0, 1] ∧
    (#v[1, 1] : Vector ℝ 2).get ⬝ᵥ (-crossMemory.inverseHessianProduct #v[1, 1]).get < 0 := by
  have he : ¬crossMemory.isEmpty := by simp [crossMemory, append, isEmpty]
  obtain ⟨f, hf⟩ := cross_factor
  obtain ⟨-, hB, -, -, -, -, hnewest, hdescent⟩ := hessianProduct_posDef cross_reachable
  obtain ⟨hproduct, hinverse⟩ := hnewest ⟨.ofFn ![0, 1], .ofFn ![0, 1]⟩ rfl
  have hg : (#v[1, 1] : Vector ℝ 2).get ≠ 0 := by
    intro hzero
    have hone := congrFun hzero 0
    simp [Vec.get_eq_getElem] at hone
  exact ⟨cross_reachable, he, ⟨f, hf⟩, hB, hproduct f hf, hinverse, hdescent _ hg⟩

end BoxBfgs.Memory
