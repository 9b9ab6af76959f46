import BoxBfgs.Proofs.Factor.Decomposition
import BoxBfgs.Proofs.Tensor

namespace BoxBfgs

open Matrix

variable {n c : Nat}

/-- A matrix whose factor is found is not singular: every right-hand side has a solution. -/
theorem Factor.ofMatrix_det {a : Dense ℝ n n} (ha : a.toMatrix.IsSymm) {f : Factor ℝ n} (h : ofMatrix a = .ok f) :
    a.toMatrix.det ≠ 0 := by
  have hsurjective : Function.Surjective a.toMatrix.mulVec := fun v =>
    ⟨(f.solve (.ofFn v)).get, (ofMatrix_solve ha h _).trans (Vec.get_ofFn_eq v)⟩
  exact (Matrix.isUnit_iff_isUnit_det _).mp (Matrix.mulVec_surjective_iff_isUnit.mp hsurjective) |>.ne_zero

namespace Checked

open Tensor

variable (f : Factor ℝ n)

theorem solveColumns_ofDense (b : Dense ℝ n c) : solveColumns c (parts c n (ofDense b).entries) f.solve? =
    .ok (ofDense (.ofFn fun i (j : Fin c) => (f.solve (.ofFn fun k => b.entry k j)).get i)).entries := by
  have hcolumn (j : Fin c) : Vec.ofList? n ((parts c n (ofDense b).entries).filterMap (·[j.val]?)) =
      some (.ofFn fun k => b.entry k j) := by
    have hread (v : Vector ℝ c) : v.toList[j.val]? = some (v.get j) := by simp [Vec.get_eq_getElem]
    have hlist : (parts c n (ofDense b).entries).filterMap (·[j.val]?) = (b.rows.map fun v => v.get j).toList := by
      rw [parts_ofDense, List.filterMap_map, Vector.toList_map, ← List.filterMap_eq_map]
      exact congrArg (List.filterMap · _) (funext hread)
    rw [hlist, Vec.ofList?_toList]
    exact congrArg some (Vec.ext_get (funext fun k => by simp [Dense.entry]))
  have hsolved : ((List.range c).mapM fun j =>
      (Vec.ofList? n ((parts c n (ofDense b).entries).filterMap (·[j]?))).bind f.solve?) =
      some ((List.finRange c).map fun j => f.solve (.ofFn fun k => b.entry k j)) := by
    rw [← List.map_coe_finRange_eq_range, List.mapM_map]
    refine mapM_eq_some fun j _ => ?_
    simp only [Function.comp_apply]
    rw [hcolumn, Option.bind_some, Factor.solve?_real]
  rw [solveColumns, hsolved, entries_ofFn]
  simp only [List.map_map]
  rfl

theorem solve_ofDense (b : Dense ℝ n c) : Checked.solve f (ofDense b) =
    .ok (ofDense (.ofFn fun i (j : Fin c) => (f.solve (.ofFn fun k => b.entry k j)).get i)) := by
  rcases Nat.eq_zero_or_pos n with rfl | hn
  · have hempty (b : Dense ℝ 0 c) : ofDense b = ⟨[0, c], []⟩ := by
      have hnil : b.rows.toList = [] := List.eq_nil_of_length_eq_zero Vector.length_toList
      rw [ofDense, hnil]
      rfl
    rw [Checked.solve, if_pos rfl, hempty, hempty]
    rfl
  · have hshape (b : Dense ℝ n c) : (ofDense b).shape = [n, c] := rfl
    simp only [Checked.solve, if_neg hn.ne', hshape, lt_irrefl, if_false, front_ofDense, solveColumns_ofDense]
    rfl

theorem solve_ofVector (v : Vector ℝ n) : Checked.solve f (ofVector v) = .ok (ofVector (f.solve v)) := by
  rcases Nat.eq_zero_or_pos n with rfl | hn
  · have hempty (v : Vector ℝ 0) : ofVector v = ⟨[0], []⟩ := by
      have hnil : v.toList = [] := List.eq_nil_of_length_eq_zero Vector.length_toList
      rw [ofVector, hnil]
    rw [Checked.solve, if_pos rfl, hempty, hempty]
    rfl
  · -- A vector is solved for as a matrix of one column.
    have hcolumns := solveColumns_ofDense f (.ofFn fun i (_ : Fin 1) => v.get i)
    have hv : .ofFn (fun k => v.get k) = v := Vec.ext_get (Vec.get_ofFn_eq v.get)
    simp only [Dense.entry_ofFn, entries_column, hv] at hcolumns
    simp only [Checked.solve, if_neg hn.ne', shape_ofVector, lt_irrefl, if_false, front_ofVector, entries_ofVector,
      hcolumns]
    rfl

theorem factor_ofDense (a : Dense ℝ n n) : Checked.factor (ofDense a) = match Factor.ofMatrix a with
    | .ok f => .ok ⟨n, f⟩
    | .error why => .error (.breakdown (.matrix why)) := by
  have hshape : (ofDense a).shape = [n, n] := rfl
  simp only [Checked.factor, hshape, dense?_ofDense, ne_eq, not_true_eq_false, if_false]
  cases Factor.ofMatrix a <;> rfl

/-- A symmetric matrix of any size that is factored is the product of multipliers, of pivots of one or two rows and of
the multipliers transposed, its rows and columns in the order of the factor, and the factor solves for every vector and
for every matrix, column by column. A singular matrix is not factored. -/
theorem factor_solves {a : Dense ℝ n n} (ha : a.toMatrix.IsSymm) :
    (∀ g, Checked.factor (ofDense a) = .ok g → ∃ f : Factor ℝ n, g = ⟨n, f⟩ ∧ f.Splits a ∧
      (∀ b : Vector ℝ n, ∃ x : Vector ℝ n,
        Checked.solve f (ofVector b) = .ok (ofVector x) ∧ a.toMatrix *ᵥ x.get = b.get) ∧
      ∀ c (b : Dense ℝ n c), ∃ x : Dense ℝ n c,
        Checked.solve f (ofDense b) = .ok (ofDense x) ∧ a.toMatrix * x.toMatrix = b.toMatrix) ∧
    (a.toMatrix.det = 0 → ∃ why, Checked.factor (ofDense a) = .error (.breakdown (.matrix why))) := by
  rw [factor_ofDense]
  cases hf : Factor.ofMatrix a with
  | error why => exact ⟨fun g hg => (nomatch hg), fun _ => ⟨why, rfl⟩⟩
  | ok f =>
      have hsolve := Factor.ofMatrix_solve ha hf
      refine ⟨fun g hg => ?_, fun hdet => absurd hdet (Factor.ofMatrix_det ha hf)⟩
      cases hg
      refine ⟨f, rfl, .of_product ((Factor.ofMatrix_eliminates ha hf).product ha), fun b => ?_, fun c b => ?_⟩
      · exact ⟨f.solve b, solve_ofVector f b, hsolve b⟩
      · refine ⟨_, solve_ofDense f b, ?_⟩
        ext i j
        have hcolumn := congrFun (hsolve (.ofFn fun k => b.entry k j)) i
        simpa [Matrix.mul_apply, Matrix.mulVec, dotProduct] using hcolumn

/-- A matrix with zeros along its diagonal, for which two rows are one pivot. -/
theorem factor_solves_swap : ∃ f : Factor ℝ 2, Checked.factor (ofDense ⟨#v[#v[0, 1], #v[1, 0]]⟩) = .ok ⟨2, f⟩ ∧
    f.Splits ⟨#v[#v[0, 1], #v[1, 0]]⟩ ∧ ∃ x : Vector ℝ 2, Checked.solve f (ofVector #v[1, 2]) = .ok (ofVector x) ∧
      (⟨#v[#v[0, 1], #v[1, 0]]⟩ : Dense ℝ 2 2).toMatrix *ᵥ x.get = (#v[1, 2] : Vector ℝ 2).get := by
  set a : Dense ℝ 2 2 := ⟨#v[#v[0, 1], #v[1, 0]]⟩ with ha
  have hentries : a.entry 0 0 = 0 ∧ a.entry 1 0 = 1 ∧ a.entry 0 1 = 1 ∧ a.entry 1 1 = 0 := ⟨rfl, rfl, rfl, rfl⟩
  obtain ⟨h00, h10, h01, h11⟩ := hentries
  have hsymm : a.toMatrix.IsSymm := Matrix.IsSymm.ext fun i j => by
    fin_cases i <;> fin_cases j <;> simp [h10, h01]
  have hratio : (0 : ℝ) < Factor.ratio := by
    simp only [Factor.ratio, Scalar.sqrt_real]
    positivity
  have hpivot : Factor.choosePivot a = .double 0 := by
    rw [Factor.choosePivot, Factor.columnPeak_pair]
    simp [Factor.rowPeak, List.finRange_succ, h00, h10, h11, not_le.mpr hratio]
  have hmax : a.maxAbs = 1 := by simp [a, Dense.maxAbs, Vec.maxAbs, Vector.foldl]
  have hdet : ¬|a.entry 0 0 * a.entry 1 1 - a.entry 1 0 * a.entry 1 0| ≤
      Factor.tolerance a * Factor.tolerance a := by
    have hpos := Scalar.epsilon_pos
    have hlt := Scalar.epsilon_lt
    rw [h00, h10, Factor.tolerance, hmax]
    norm_num
    nlinarith
  obtain ⟨f, hf⟩ : ∃ f, Factor.ofMatrix a = .ok f := by
    rw [Factor.ofMatrix_eq hsymm]
    simp only [Factor.factorize, hpivot, Fin.succ_zero_eq_one, Dense.exchange_self, Scalar.abs_real]
    exact ⟨_, if_neg hdet⟩
  obtain ⟨hall, -⟩ := factor_solves hsymm
  have hfactor : Checked.factor (ofDense a) = .ok ⟨2, f⟩ := by rw [factor_ofDense, hf]
  obtain ⟨f', heq, hsplits, hvector, -⟩ := hall _ hfactor
  cases heq
  exact ⟨f, hfactor, hsplits, hvector _⟩

end Checked

end BoxBfgs
