import BoxBfgs.Proofs.Factor.Solution

namespace BoxBfgs

open Matrix

variable {n k : Nat} {c : ℝ}

namespace Dense

def scale (c : ℝ) (a : Dense ℝ n k) : Dense ℝ n k := .ofFn fun i j => c * a.entry i j

@[simp] theorem entry_scale (c : ℝ) (a : Dense ℝ n k) (i : Fin n) (j : Fin k) :
    (a.scale c).entry i j = c * a.entry i j := entry_ofFn _ i j

theorem scale_isSymm {a : Dense ℝ n n} (ha : a.toMatrix.IsSymm) : (a.scale c).toMatrix.IsSymm :=
  Matrix.IsSymm.ext fun i j => by simp [entry_symm ha i j]

theorem exchange_scale (a : Dense ℝ n n) (p q : Fin n) : (a.scale c).exchange p q = (a.exchange p q).scale c :=
  ext_entry fun i j => by simp [exchange]

theorem maxAbs_le {a : Dense ℝ n k} {t : ℝ} : a.maxAbs ≤ t ↔ 0 ≤ t ∧ ∀ i j, |a.entry i j| ≤ t := by
  have hfold {u : ℝ} {l : List (Vector ℝ k)} : l.foldl (fun m row => Scalar.maximum m (Vec.maxAbs row)) u ≤ t ↔
      u ≤ t ∧ ∀ row ∈ l, Vec.maxAbs row ≤ t := by
    induction l generalizing u with
    | nil => simp
    | cons row l ih =>
        rw [List.foldl_cons, ih]
        simp [and_assoc]
  rw [maxAbs, ← Vector.foldl_toList, hfold]
  refine and_congr_right fun ht => ?_
  simp only [Vec.maxAbs_le, ht, true_and]
  constructor
  · intro h i
    exact h (a.rows.get i) (by simp [Vec.get_eq_getElem])
  · intro h row hrow
    obtain ⟨i, hi, rfl⟩ := List.getElem_of_mem hrow
    exact h ⟨i, by simpa using hi⟩

theorem maxAbs_scale (hc : 0 < c) (a : Dense ℝ n k) : (a.scale c).maxAbs = c * a.maxAbs := by
  refine eq_of_forall_ge_iff fun t => ?_
  have hzero : 0 ≤ t / c ↔ 0 ≤ t := by rw [le_div_iff₀' hc, mul_zero]
  simp only [← le_div_iff₀' hc, maxAbs_le, entry_scale, abs_mul, abs_of_pos hc, hzero]

end Dense

namespace Factor

noncomputable def scale (c : ℝ) : {n : Nat} → Factor ℝ n → Factor ℝ n
  | _, .nil => .nil
  | _, .single p d l rest => .single p (c * d) l (rest.scale c)
  | _, .double p x y z l m rest => .double p (c * x) (c * y) (c * z) l m (rest.scale c)

theorem columnPeak_scale (hc : 0 < c) (a : Dense ℝ (n + 1) (n + 1)) :
    columnPeak (a.scale c) = (columnPeak a).map (Prod.map id (c * ·)) := by
  rw [columnPeak, columnPeak]
  refine @List.foldl_hom _ _ _ (Option.map (Prod.map id (c * ·))) _ _ _ none fun best i => ?_
  cases best with
  | none => simp [abs_mul, abs_of_pos hc]
  | some b =>
      simp only [Option.map_some, Prod.map, id, Dense.entry_scale, Scalar.abs_real, abs_mul, abs_of_pos hc, gt_iff_lt,
        mul_lt_mul_iff_right₀ hc]
      split_ifs <;> rfl

theorem rowPeak_scale (hc : 0 < c) (a : Dense ℝ (n + 1) (n + 1)) (i : Fin (n + 1)) :
    rowPeak (a.scale c) i = c * rowPeak a i := by
  rw [rowPeak, rowPeak, ← List.foldl_hom (c * ·), mul_zero]
  intro w j
  split_ifs
  · rfl
  · simp [abs_mul, abs_of_pos hc, mul_max_of_nonneg _ _ hc.le]

/-- The pivot that is chosen does not depend on the scale. -/
theorem choosePivot_scale (hc : 0 < c) (a : Dense ℝ (n + 1) (n + 1)) : choosePivot (a.scale c) = choosePivot a := by
  rw [choosePivot, choosePivot, columnPeak_scale hc]
  cases columnPeak a with
  | none => rfl
  | some b =>
      obtain ⟨i, w⟩ := b
      have hdiagonal (j : Fin (n + 1)) (t : ℝ) : c * t ≤ |c * a.entry j j| ↔ t ≤ |a.entry j j| := by
        rw [abs_mul, abs_of_pos hc, mul_le_mul_iff_right₀ hc]
      simp only [Option.map_some, Prod.map, id, Dense.entry_scale, rowPeak_scale hc, Scalar.abs_real,
        Scalar.unordered_real, mul_div_mul_left _ _ hc.ne', mul_left_comm _ c, mul_assoc, ge_iff_le, hdiagonal]

theorem blockSolve_scale (hc : 0 < c) (x y z u v : ℝ) :
    blockSolve (c * x) (c * y) (c * z) (c * u) (c * v) = blockSolve x y z u v := by
  have hcancel (s t : ℝ) : c * (s / (c * y) * t) = s / y * t := by
    rw [← mul_assoc, ← mul_div_assoc, mul_div_mul_left _ _ hc.ne']
  simp only [blockSolve, mul_div_mul_left _ _ hc.ne', mul_left_comm _ c, ← mul_sub, hcancel]

theorem eliminateSingle_scale (e : Dense ℝ (n + 1) (n + 1)) (l : Vector ℝ n) :
    eliminateSingle (e.scale c) l = (eliminateSingle e l).scale c := by
  refine Dense.ext_entry fun i j => ?_
  simp only [eliminateSingle, Dense.ofLower, Dense.entry_ofFn, Dense.entry_scale]
  split_ifs <;> ring

theorem eliminateDouble_scale (e : Dense ℝ (n + 2) (n + 2)) (l m : Vector ℝ n) :
    eliminateDouble (e.scale c) l m = (eliminateDouble e l m).scale c := by
  refine Dense.ext_entry fun i j => ?_
  simp only [eliminateDouble, Dense.ofLower, Dense.entry_ofFn, Dense.entry_scale]
  split_ifs <;> ring

/-- With the pivots measured on the scale of the matrix, the multipliers do not depend on it. -/
theorem factorize_scale (hc : 0 < c) (tol : ℝ) (a : Dense ℝ n n) :
    factorize (c * tol) (a.scale c) = (factorize tol a).map (scale c) := by
  have habs (d : ℝ) : Scalar.abs (c * d) ≤ c * tol ↔ Scalar.abs d ≤ tol := by
    rw [Scalar.abs_real, Scalar.abs_real, abs_mul, abs_of_pos hc, mul_le_mul_iff_right₀ hc]
  have hdet (x y z : ℝ) : Scalar.abs (c * x * (c * z) - c * y * (c * y)) ≤ c * tol * (c * tol) ↔
      Scalar.abs (x * z - y * y) ≤ tol * tol := by
    have hsq : 0 < c * c := mul_pos hc hc
    rw [Scalar.abs_real, Scalar.abs_real, mul_mul_mul_comm, mul_mul_mul_comm c y, mul_mul_mul_comm c tol, ← mul_sub,
      abs_mul, abs_of_pos hsq, mul_le_mul_iff_right₀ hsq]
  induction a using factorize.induct tol with
  | case1 a => rfl
  | case2 a d =>
      rename_i hd
      rw [factorize, factorize, Dense.entry_scale, if_pos ((habs d).mpr hd), if_pos hd]
      rfl
  | case3 a d =>
      rename_i hd
      rw [factorize, factorize, Dense.entry_scale, if_neg (mt (habs d).mp hd), if_neg hd]
      rfl
  | case4 n p a hp e d =>
      rename_i hd
      simp only [factorize, choosePivot_scale hc, hp, Dense.exchange_scale, Dense.entry_scale]
      rw [if_pos ((habs d).mpr hd), if_pos hd]
      rfl
  | case5 n p a hp e d =>
      rename_i hd l ih
      simp only [factorize, choosePivot_scale hc, hp, Dense.exchange_scale, Dense.entry_scale,
        mul_div_mul_left _ _ hc.ne', eliminateSingle_scale]
      rw [if_neg (mt (habs d).mp hd), if_neg hd, ih]
      cases factorize tol (eliminateSingle e l) <;> rfl
  | case6 n p a hp e x y z =>
      rename_i hd
      simp only [factorize, choosePivot_scale hc, hp, Dense.exchange_scale, Dense.entry_scale]
      rw [if_pos ((hdet x y z).mpr hd), if_pos hd]
      rfl
  | case7 n p a hp e x y z =>
      rename_i hd rows l m ih
      simp only [factorize, choosePivot_scale hc, hp, Dense.exchange_scale, Dense.entry_scale, blockSolve_scale hc,
        eliminateDouble_scale]
      rw [if_neg (mt (hdet x y z).mp hd), if_neg hd, ih]
      cases factorize tol (eliminateDouble e l m) <;> rfl

/-- A larger tolerance takes fewer matrices. -/
theorem factorize_mono {s t : ℝ} (hs : 0 ≤ s) (hst : s ≤ t) {a : Dense ℝ n n} {f : Factor ℝ n}
    (h : factorize t a = .ok f) : factorize s a = .ok f := by
  have hsq : s * s ≤ t * t := mul_self_le_mul_self hs hst
  induction a using factorize.induct t with
  | case1 a => exact h
  | case2 a d =>
      rename_i hd
      rw [factorize, if_pos hd] at h
      cases h
  | case3 a d =>
      rename_i hd
      rw [factorize, if_neg hd] at h
      rw [factorize, if_neg fun hle => hd (hle.trans hst), h]
  | case4 n p a hp e d =>
      rename_i hd
      simp only [factorize, hp] at h
      rw [if_pos hd] at h
      cases h
  | case5 n p a hp e d =>
      rename_i hd l ih
      simp only [factorize, hp] at h ⊢
      rw [if_neg hd] at h
      rw [if_neg fun hle => hd (hle.trans hst)]
      obtain ⟨rest, hrest, rfl⟩ := map_eq_ok h
      rw [ih hrest]
      rfl
  | case6 n p a hp e x y z =>
      rename_i hd
      simp only [factorize, hp] at h
      rw [if_pos hd] at h
      cases h
  | case7 n p a hp e x y z =>
      rename_i hd rows l m ih
      simp only [factorize, hp] at h ⊢
      rw [if_neg hd] at h
      rw [if_neg fun hle => hd (hle.trans hsq)]
      obtain ⟨rest, hrest, rfl⟩ := map_eq_ok h
      rw [ih hrest]
      rfl

theorem tolerance_scale (hc : 0 < c) (a : Dense ℝ n n) :
    tolerance (a.scale c) = Scalar.epsilon * max (c * a.maxAbs) 1 * n := by
  rw [tolerance, Dense.maxAbs_scale hc]

theorem mul_tolerance (hc : 0 < c) (a : Dense ℝ n n) :
    c * tolerance a = Scalar.epsilon * max (c * a.maxAbs) c * n := by
  have hmax : max (c * a.maxAbs) c = c * max a.maxAbs 1 := by rw [mul_max_of_nonneg _ _ hc.le, mul_one]
  rw [tolerance, hmax]
  ring

variable {a : Dense ℝ n n}

/-- Where the floor of the tolerance does not lie higher for the scaled matrix, it has a factor along with the other. -/
theorem ofMatrix_scale_ok (hc : 0 < c) (ha : a.toMatrix.IsSymm) (hfloor : 1 ≤ c ∨ 1 ≤ c * a.maxAbs) {f : Factor ℝ n}
    (hf : ofMatrix a = .ok f) : ofMatrix (a.scale c) = .ok (f.scale c) := by
  have htol : tolerance (a.scale c) ≤ c * tolerance a := by
    rw [tolerance_scale hc, mul_tolerance hc]
    have hmax : max (c * a.maxAbs) 1 ≤ max (c * a.maxAbs) c :=
      max_le (le_max_left _ _) (hfloor.elim (le_max_of_le_right ·) (le_max_of_le_left ·))
    exact mul_le_mul_of_nonneg_right (mul_le_mul_of_nonneg_left hmax Scalar.epsilon_pos.le) n.cast_nonneg
  rw [ofMatrix_eq (Dense.scale_isSymm ha)]
  apply factorize_mono (tolerance_nonneg _) htol
  rw [factorize_scale hc, ← ofMatrix_eq ha, hf]
  rfl

theorem exists_ofMatrix_scaled (hc : 0 < c) (ha : a.toMatrix.IsSymm) (hfloor : 1 ≤ c ∨ 1 ≤ c * a.maxAbs)
    {b : Dense ℝ k k} (h : n = k) (hb : ∀ i j, b.entry (i.cast h) (j.cast h) = c * a.entry i j)
    (hf : ∃ f, ofMatrix a = .ok f) : ∃ f, ofMatrix b = .ok f := by
  subst h
  have hscale : b = a.scale c := Dense.ext_entry fun i j => (hb i j).trans (a.entry_scale c i j).symm
  obtain ⟨f, hf⟩ := hf
  exact ⟨f.scale c, hscale ▸ ofMatrix_scale_ok hc ha hfloor hf⟩

/-- Away from the floor of the tolerance the factor is that of the other matrix with the pivots scaled. -/
theorem ofMatrix_scale (hc : 0 < c) (ha : a.toMatrix.IsSymm) (h1 : 1 ≤ a.maxAbs) (h2 : 1 ≤ c * a.maxAbs) :
    ofMatrix (a.scale c) = (ofMatrix a).map (scale c) := by
  have hmax : c ≤ c * a.maxAbs := by simpa using mul_le_mul_of_nonneg_left h1 hc.le
  have htol : tolerance (a.scale c) = c * tolerance a := by
    rw [tolerance_scale hc, mul_tolerance hc, max_eq_left h2, max_eq_left hmax]
  rw [ofMatrix_eq (Dense.scale_isSymm ha), htol, factorize_scale hc, ← ofMatrix_eq ha]

/-- A small first pivot is taken to be zero, be the matrix invertible or not. -/
theorem ofMatrix_small {x y : ℝ} (hx : |x| ≤ Scalar.epsilon) :
    ofMatrix (⟨#v[#v[-x, 0], #v[0, y]]⟩ : Dense ℝ 2 2) = .error .single := by
  set a : Dense ℝ 2 2 := ⟨#v[#v[-x, 0], #v[0, y]]⟩ with ha
  obtain ⟨h00, h10, h01⟩ : a.entry 0 0 = -x ∧ a.entry 1 0 = 0 ∧ a.entry 0 1 = 0 := ⟨rfl, rfl, rfl⟩
  have hsymm : a.toMatrix.IsSymm := Matrix.IsSymm.ext fun i j => by
    fin_cases i <;> fin_cases j <;> simp [h10, h01]
  have hpivot : choosePivot a = .single 0 := by
    apply choosePivot_single
    intro i
    rw [Fin.fin_one_eq_zero i, Fin.succ_zero_eq_one, h10, abs_zero, mul_zero]
    exact abs_nonneg _
  have htol : Scalar.epsilon ≤ tolerance a := by
    have hone : 1 ≤ max a.maxAbs 1 := le_max_right _ _
    rw [tolerance, mul_assoc]
    refine le_mul_of_one_le_right Scalar.epsilon_pos.le ?_
    push_cast
    linarith
  rw [ofMatrix_eq hsymm]
  simp only [factorize, hpivot, Dense.exchange_self, Scalar.abs_real, h00, abs_neg]
  rw [if_pos (hx.trans htol)]

theorem ofMatrix_number (x : ℝ) : ofMatrix (⟨#v[#v[x]]⟩ : Dense ℝ 1 1) =
    if |x| ≤ Scalar.epsilon * max |x| 1 then .error .single else .ok (.single 0 x #v[] .nil) := by
  have hsymm : (⟨#v[#v[x]]⟩ : Dense ℝ 1 1).toMatrix.IsSymm :=
    Matrix.IsSymm.ext fun i j => by rw [Subsingleton.elim i j]
  have hmax : (⟨#v[#v[x]]⟩ : Dense ℝ 1 1).maxAbs = |x| := by simp [Dense.maxAbs, Vec.maxAbs, Vector.foldl]
  rw [ofMatrix_eq hsymm, tolerance, hmax, Nat.cast_one, mul_one]
  rfl

end Factor

namespace Checked

open Tensor

theorem factor_breaks_iff {a : Dense ℝ n n} {why : Singularity} :
    Checked.factor (ofDense a) = .error (.breakdown (.matrix why)) ↔ Factor.ofMatrix a = .error why := by
  rw [factor_ofDense]
  cases Factor.ofMatrix a <;> simp

end Checked

end BoxBfgs
