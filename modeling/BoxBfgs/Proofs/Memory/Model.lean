import BoxBfgs.Proofs.Memory.Product

namespace BoxBfgs.Memory

open Matrix

variable {n : Nat} {m : Memory ℝ n}

/-- The matrix of the model, by the pairs from the oldest to the newest. -/
noncomputable def hessian (m : Memory ℝ n) : Matrix (Fin n) (Fin n) ℝ := bfgs m.theta m.pairs

/-- The quadratic model with the gradient `g`, as a function of the displacement. -/
noncomputable def model (m : Memory ℝ n) (g z : Fin n → ℝ) : ℝ := g ⬝ᵥ z + 1 / 2 * (z ⬝ᵥ (m.hessian *ᵥ z))

theorem model_zero (g : Fin n → ℝ) : m.model g 0 = 0 := by simp [model]

theorem get_rowW (i : Fin n) : (m.rowW i).get = m.matrixW.toMatrix i := by
  funext j
  simp [matrixW, rowsW, Dense.entry]

theorem get_transposeW (v : Vector ℝ n) : (m.transposeW v).get = m.matrixW.toMatrixᵀ *ᵥ v.get := by
  have hentry (i : Fin n) (j : Fin (m.size + m.size)) : m.matrixW.toMatrix i j = (m.rowW i).get j := by
    rw [get_rowW]
  refine eq_of_parts (funext fun j => ?_) (funext fun j => ?_)
  · rw [upper_transposeW, upper, mulVec, dotProduct, dotProduct]
    refine Finset.sum_congr rfl fun i _ => ?_
    rw [transpose_apply, hentry, rowW, blocks, Vec.get_ofFn, Fin.addCases_left]
  · rw [lower_transposeW, lower, mulVec, dotProduct, dotProduct, Finset.mul_sum]
    refine Finset.sum_congr rfl fun i _ => ?_
    rw [transpose_apply, hentry, rowW, blocks, Vec.get_ofFn, Fin.addCases_right, mul_assoc]

theorem timesW_eq_mulVec (u : Vector ℝ (m.size + m.size)) : (m.timesW u).get = m.matrixW.toMatrix *ᵥ u.get := by
  funext i
  have hentry (j : Fin (m.size + m.size)) : m.matrixW.toMatrix i j = (m.rowW i).get j := by rw [get_rowW]
  rw [mulVec_split, get_timesW, Pi.add_apply, Pi.smul_apply, Finset.sum_apply, Finset.sum_apply, smul_eq_mul,
    Finset.mul_sum]
  congr 1
  · refine Finset.sum_congr rfl fun j _ => ?_
    rw [hentry, rowW, blocks, Vec.get_ofFn, Fin.addCases_left, Pi.smul_apply, smul_eq_mul, mul_comm]
  · refine Finset.sum_congr rfl fun j _ => ?_
    rw [hentry, rowW, blocks, Vec.get_ofFn, Fin.addCases_right, Pi.smul_apply, smul_eq_mul]
    ring

theorem hessian_of_isEmpty (he : m.isEmpty = true) : m.hessian = m.theta • (1 : Matrix (Fin n) (Fin n) ℝ) := by
  have hpairs : m.pairs = [] := by simpa [isEmpty] using he
  rw [hessian, hpairs]
  rfl

theorem hessian_single {p : Pair ℝ n} : ((empty n 1 : Memory ℝ n).append p).hessian =
    p.update (((p.y.get ⬝ᵥ p.y.get) / (p.y.get ⬝ᵥ p.s.get)) • 1) := by
  rw [hessian, theta_single]
  rfl

theorem hessian_unitStep {p : Pair ℝ n} {c : ℝ} (h : p.UnitStep c) (v : Fin n → ℝ) :
    ((empty n 1 : Memory ℝ n).append p).hessian *ᵥ v =
      c • (v - (p.s.get ⬝ᵥ v) • p.s.get) + (p.y.get ⬝ᵥ v) • p.y.get := by
  rw [hessian_single, ← theta_single, theta_unitStep h, h.update_mulVec]

theorem solveMiddle_of_isEmpty (h : m.isEmpty = true) (u : Vector ℝ (m.size + m.size)) : m.solveMiddle u = .ok u :=
  if_pos h

/-- With a factor at hand every system has an answer. -/
theorem exists_solveMiddle {f : Factor ℝ (m.size + m.size)} (hf : m.factor = .ok f)
    (u : Vector ℝ (m.size + m.size)) : ∃ z, m.solveMiddle u = .ok z := by
  rw [solveMiddle]
  split_ifs
  · exact ⟨u, rfl⟩
  · exact ⟨f.solve u, by rw [hf]; simp only [Factor.solve?_real]⟩

namespace Sound

variable (h : m.Sound)

include h

theorem hessian_posDef : m.hessian.PosDef := h.bfgs_posDef

theorem hessian_comm (x y : Fin n → ℝ) : x ⬝ᵥ (m.hessian *ᵥ y) = y ⬝ᵥ (m.hessian *ᵥ x) :=
  dotProduct_mulVec_comm (posDef_isSymm h.hessian_posDef) x y

theorem model_add_smul (g z d : Fin n → ℝ) (t : ℝ) : m.model g (z + t • d) =
    m.model g z + t * (d ⬝ᵥ (g + m.hessian *ᵥ z)) + t ^ 2 / 2 * (d ⬝ᵥ (m.hessian *ᵥ d)) := by
  have hcomm := h.hessian_comm z d
  simp only [model, mulVec_add, mulVec_smul, dotProduct_add, add_dotProduct, dotProduct_smul, smul_dotProduct,
    smul_eq_mul, hcomm, dotProduct_comm g d]
  ring

theorem hessian_mulVec {u : Vector ℝ (m.size + m.size)} {a : Vector ℝ n} (hu : m.solveMiddle (m.transposeW a) = .ok u) :
    m.hessian *ᵥ a.get = m.theta • a.get - m.matrixW.toMatrix *ᵥ u.get := by
  rw [hessian, h.mulVec_of_middle (h.solveMiddle_eq_ok hu), timesW_eq_mulVec]

theorem dot_hessian {u : Vector ℝ (m.size + m.size)} {a : Vector ℝ n} (hu : m.solveMiddle (m.transposeW a) = .ok u)
    (v : Fin n → ℝ) :
    v ⬝ᵥ (m.hessian *ᵥ a.get) = m.theta * (v ⬝ᵥ a.get) - u.get ⬝ᵥ (m.matrixW.toMatrixᵀ *ᵥ v) := by
  rw [h.hessian_mulVec hu, dotProduct_sub, dotProduct_smul, smul_eq_mul, dotProduct_mulVec, ← mulVec_transpose,
    dotProduct_comm u.get]

theorem hessian_row {u : Vector ℝ (m.size + m.size)} {i : Fin n} (hu : m.solveMiddle (m.rowW i) = .ok u)
    (v : Fin n → ℝ) : (m.hessian *ᵥ v) i = m.theta * v i - u.get ⬝ᵥ (m.matrixW.toMatrixᵀ *ᵥ v) := by
  have hunit : (Vector.ofFn (Pi.single (M := fun _ => ℝ) i 1)).get = Pi.single i 1 := funext fun j => by simp
  have hrow : m.rowW i = m.transposeW (.ofFn (Pi.single (M := fun _ => ℝ) i 1)) := by
    refine Vec.ext_get ?_
    rw [get_transposeW, hunit, mulVec_single_one, get_rowW]
    rfl
  rw [hrow] at hu
  have hdot := h.dot_hessian hu v
  rw [hunit, dotProduct_single_one, h.hessian_comm, single_one_dotProduct] at hdot
  exact hdot

end Sound

end BoxBfgs.Memory
