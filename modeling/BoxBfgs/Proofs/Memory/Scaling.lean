import BoxBfgs.Proofs.Factor.Scaling
import BoxBfgs.Proofs.Memory.Inverse

namespace BoxBfgs

open Matrix

variable {n : Nat} {c : ℝ}

namespace Pair

noncomputable def scale (c : ℝ) (p : Pair ℝ n) : Pair ℝ n := ⟨Vec.scale c p.s, Vec.scale c p.y⟩

theorem update_scale (hc : c ≠ 0) (p : Pair ℝ n) (B : Matrix (Fin n) (Fin n) ℝ) :
    (p.scale c).update B = p.update B := by
  have hcancel (t : ℝ) (u : Fin n → ℝ) :
      (1 / (c * (c * t))) • vecMulVec (c • u) (c • u) = (1 / t) • vecMulVec u u := by
    ext i j
    rcases eq_or_ne t 0 with rfl | ht
    · simp
    · simp only [Matrix.smul_apply, vecMulVec_apply, Pi.smul_apply, smul_eq_mul]
      field_simp
  simp only [update, scale, Vec.get_scale_eq, mulVec_smul, smul_dotProduct, dotProduct_smul, smul_eq_mul, hcancel]

theorem step_change_scale (c : ℝ) (p q : Pair ℝ n) :
    (p.scale c).s.get ⬝ᵥ (q.scale c).y.get = c ^ 2 * (p.s.get ⬝ᵥ q.y.get) := by
  simp only [scale, Vec.get_scale_eq, smul_dotProduct, dotProduct_smul, smul_eq_mul]
  ring

theorem step_step_scale (c : ℝ) (p q : Pair ℝ n) :
    (p.scale c).s.get ⬝ᵥ (q.scale c).s.get = c ^ 2 * (p.s.get ⬝ᵥ q.s.get) := by
  simp only [scale, Vec.get_scale_eq, smul_dotProduct, dotProduct_smul, smul_eq_mul]
  ring

end Pair

theorem bfgs_scale (hc : c ≠ 0) (theta : ℝ) (pairs : List (Pair ℝ n)) :
    bfgs theta (pairs.map (Pair.scale c)) = bfgs theta pairs := by
  simp only [bfgs, List.foldl_map, Pair.update_scale hc]

namespace Memory

theorem scaling_scale (hc : c ≠ 0) (pairs : List (Pair ℝ n)) :
    scaling (pairs.map (Pair.scale c)) = scaling pairs := by
  rw [scaling, scaling, List.getLast?_map]
  cases pairs.getLast? with
  | none => rfl
  | some p =>
      simp only [Option.map_some, Pair.scale, Vec.get_scale_eq, smul_dotProduct, dotProduct_smul, smul_eq_mul]
      rw [mul_div_mul_left _ _ hc, mul_div_mul_left _ _ hc]

/-- What the pairs of a memory are when its steps and its changes of the gradient are scaled alike. -/
theorem get_scale {m m' : Memory ℝ n} (hpairs : m'.pairs = m.pairs.map (Pair.scale c)) (hsize : m.size = m'.size)
    (j : Fin m.size) : m'.pairs.get (j.cast hsize) = (m.pairs.get j).scale c := by
  simp [hpairs]

namespace Sound

variable {m m' : Memory ℝ n} (h : m.Sound) (h' : m'.Sound) (hc : 0 < c)
  (hpairs : m'.pairs = m.pairs.map (Pair.scale c))

include h h' hc hpairs

theorem hessian_scale : m'.hessian = m.hessian := by
  rw [hessian, hessian, h.theta, h'.theta, hpairs, scaling_scale hc.ne', bfgs_scale hc.ne']

theorem middle_scale (hsize : m.size + m.size = m'.size + m'.size) (i j : Fin (m.size + m.size)) :
    m'.middle.entry (i.cast hsize) (j.cast hsize) = c ^ 2 * m.middle.entry i j := by
  have hk : m.size = m'.size := by omega
  have hget := get_scale hpairs hk
  have hleft (a : Fin m.size) : (Fin.castAdd m.size a).cast hsize = Fin.castAdd m'.size (a.cast hk) := rfl
  have hright (a : Fin m.size) : (Fin.natAdd m.size a).cast hsize = Fin.natAdd m'.size (a.cast hk) := by
    simp [Fin.ext_iff, hk]
  have htheta : m'.theta = m.theta := by rw [h.theta, h'.theta, hpairs, scaling_scale hc.ne']
  refine Fin.addCases (fun a => ?_) (fun a => ?_) i <;> refine Fin.addCases (fun b => ?_) (fun b => ?_) j
  · rw [hleft, hleft, h.middle_upper_upper, h'.middle_upper_upper, Pair.curvature, hget, Pair.step_change_scale]
    simp only [Fin.cast_inj, Pair.curvature, mul_ite, mul_neg, mul_zero]
  · rw [hleft, hright, h.middle_upper_lower, h'.middle_upper_lower, hget, hget, Pair.step_change_scale]
    simp only [Fin.cast_lt_cast, mul_ite, mul_zero]
  · rw [hright, hleft, h.middle_lower_upper, h'.middle_lower_upper, hget, hget, Pair.step_change_scale]
    simp only [Fin.cast_lt_cast, mul_ite, mul_zero]
  · rw [hright, hright, h.middle_lower_lower, h'.middle_lower_lower, hget, hget, Pair.step_step_scale, htheta,
      mul_left_comm]

/-- A product that is formed is formed alike with the scaled pairs, where the floor does not lie higher for them. -/
theorem hessianProduct_scale (hfloor : 1 ≤ c ∨ 1 ≤ c ^ 2 * m.middle.maxAbs) {v r : Vector ℝ n}
    (hr : m.hessianProduct v = .ok r) : m'.hessianProduct v = .ok r := by
  have hempty : m'.isEmpty = m.isEmpty := by simp [isEmpty, hpairs]
  have hhessian := h.hessian_scale h' hc hpairs
  by_cases he : m.isEmpty
  · have htheta : m'.theta = m.theta := by rw [h.theta, h'.theta, hpairs, scaling_scale hc.ne']
    rw [hessianProduct, if_pos he] at hr
    rw [hessianProduct, if_pos (hempty.trans he), htheta, hr]
  · obtain ⟨f, hf⟩ : ∃ f, m.factor = .ok f := by
      rw [hessianProduct, if_neg he, solveMiddle, if_neg he] at hr
      cases hf : m.factor with
      | ok f => exact ⟨f, rfl⟩
      | error why => simp [hf, Except.map] at hr
    obtain ⟨g, hg⟩ : ∃ g, Factor.ofMatrix m'.middle = .ok g := by
      have hsize : m.size = m'.size := by simp [size, hpairs]
      refine Factor.exists_ofMatrix_scaled (pow_pos hc 2) h.middle_isSymm ?_ (congrArg₂ (· + ·) hsize hsize)
        (h.middle_scale h' hc hpairs _) ⟨f, h.factor_eq_ok.mp hf⟩
      exact hfloor.imp_left fun h1 => one_le_pow₀ h1
    obtain ⟨r₁, hr₁, hB₁⟩ := h.exists_hessianProduct hf v
    obtain ⟨r₂, hr₂, hB₂⟩ := h'.exists_hessianProduct (h'.factor_eq_ok.mpr hg) v
    rw [hr, Except.ok.injEq] at hr₁
    subst hr₁
    rw [hr₂, Vec.ext_get (hB₂.trans (hhessian ▸ hB₁.symm))]

end Sound

open Tensor

/-- Pivots are compared with the larger one of the matrix and one. So a scaled matrix breaks down exactly when the
matrix does where both have an entry of at least one, and where the scaled one has or the scale is at least one, it
breaks down only when the matrix does. A memory whose pairs are scaled keeps its model, has the middle matrix scaled by
the square, and forms the same products where that matrix has an entry of at least one or the scale is at least one. -/
theorem breakdown_scale (hc : 0 < c) :
    (∀ {k : Nat} (a : Dense ℝ k k), a.toMatrix.IsSymm →
      (1 ≤ a.maxAbs → 1 ≤ c * a.maxAbs → ∀ why,
        Checked.factor (ofDense (a.scale c)) = .error (.breakdown (.matrix why)) ↔
          Checked.factor (ofDense a) = .error (.breakdown (.matrix why))) ∧
      ((1 ≤ c ∨ 1 ≤ c * a.maxAbs) → ∀ why,
        Checked.factor (ofDense (a.scale c)) = .error (.breakdown (.matrix why)) →
          ∃ why, Checked.factor (ofDense a) = .error (.breakdown (.matrix why)))) ∧
    ∀ {m m' : Memory ℝ n}, m.Reachable → m'.Reachable → m'.pairs = m.pairs.map (Pair.scale c) →
      m'.hessian = m.hessian ∧
      (∃ hsize : m.size + m.size = m'.size + m'.size, ∀ i j,
        m'.middle.entry (i.cast hsize) (j.cast hsize) = c ^ 2 * m.middle.entry i j) ∧
      ((1 ≤ c ∨ 1 ≤ c ^ 2 * m.middle.maxAbs) → ∀ v r, m.hessianProduct v = .ok r → m'.hessianProduct v = .ok r) := by
  refine ⟨fun a ha => ⟨fun h1 h2 why => ?_, fun hfloor why hwhy => ?_⟩, fun {m m'} hm hm' hpairs => ⟨?_, ?_, ?_⟩⟩
  · rw [Checked.factor_breaks_iff, Checked.factor_breaks_iff, Factor.ofMatrix_scale hc ha h1 h2]
    cases Factor.ofMatrix a <;> simp [Except.map]
  · rw [Checked.factor_breaks_iff] at hwhy
    cases hf : Factor.ofMatrix a with
    | error why' => exact ⟨why', Checked.factor_breaks_iff.mpr hf⟩
    | ok f => simp [Factor.ofMatrix_scale_ok hc ha hfloor hf] at hwhy
  · exact hm.sound.hessian_scale hm'.sound hc hpairs
  · exact ⟨by simp [size, hpairs], hm.sound.middle_scale hm'.sound hc hpairs _⟩
  · exact fun hfloor v r hr => hm.sound.hessianProduct_scale hm'.sound hc hpairs hfloor hr

theorem admissible_number (hc : c ≠ 0) : admissible (⟨#v[c], #v[c]⟩ : Pair ℝ 1) = true := by
  have hsq : 0 < c * c := mul_self_pos.mpr hc
  have hlt : Scalar.epsilon * (c * c) < c * c := mul_lt_of_lt_one_left hsq (Scalar.epsilon_lt.trans (by norm_num))
  simpa [admissible, dotProduct, Vec.get_eq_getElem] using hlt

theorem number_unitStep : (⟨#v[1], #v[1]⟩ : Pair ℝ 1).UnitStep 1 where
  step := by simp [dotProduct, Vec.get_eq_getElem]
  curvature := by simp [Pair.curvature, dotProduct, Vec.get_eq_getElem]
  change := by simp [dotProduct, Vec.get_eq_getElem]
  one_le := le_rfl
  le := by norm_num

theorem scale_unit (c : ℝ) : (⟨#v[1], #v[1]⟩ : Pair ℝ 1).scale c = ⟨#v[c], #v[c]⟩ := by
  simp [Pair.scale, Vec.scale]

theorem breakdown_scale_double : ∃ m m' : Memory ℝ 1, m.Reachable ∧ m'.Reachable ∧
    m'.pairs = m.pairs.map (Pair.scale 2) ∧ ¬m.isEmpty ∧ m'.hessian = m.hessian ∧
    ∃ r, m.hessianProduct #v[1] = .ok r ∧ m'.hessianProduct #v[1] = .ok r := by
  have htwo : (0 : ℝ) < 2 := by norm_num
  have hpairs : ((empty 1 1 : Memory ℝ 1).append ⟨#v[2], #v[2]⟩).pairs =
      ((empty 1 1 : Memory ℝ 1).append ⟨#v[1], #v[1]⟩).pairs.map (Pair.scale 2) := by simp [append, empty, scale_unit]
  have he : ¬((empty 1 1 : Memory ℝ 1).append ⟨#v[1], #v[1]⟩).isEmpty := by simp [append, isEmpty]
  have hone : ((empty 1 1 : Memory ℝ 1).append ⟨#v[1], #v[1]⟩).Reachable := reachable_single (admissible_number one_ne_zero)
  obtain ⟨f, hf⟩ := factor_unitStep number_unitStep
  obtain ⟨r, hr, -⟩ := hone.sound.exists_hessianProduct hf #v[1]
  obtain ⟨hhessian, -, hproduct⟩ := (breakdown_scale htwo).2 hone (reachable_single (admissible_number htwo.ne')) hpairs
  exact ⟨_, _, hone, reachable_single (admissible_number htwo.ne'), hpairs, he, hhessian, r, hr,
    hproduct (.inl one_le_two) _ _ hr⟩

theorem hessianProduct_small {x : ℝ} (hx : x ≠ 0) (hsmall : x ^ 2 ≤ Scalar.epsilon) (v : Vector ℝ 1) :
    ((empty 1 1 : Memory ℝ 1).append ⟨#v[x], #v[x]⟩).hessianProduct v = .error (.breakdown (.matrix .single)) := by
  have hadm := admissible_number hx
  have hsound := (reachable_single hadm).sound
  have hcurvature : (⟨#v[x], #v[x]⟩ : Pair ℝ 1).curvature = x ^ 2 := by
    simp [Pair.curvature, dotProduct, Vec.get_eq_getElem, sq]
  have hmatrix : Factor.ofMatrix ((empty 1 1 : Memory ℝ 1).append ⟨#v[x], #v[x]⟩).middle = .error .single := by
    refine (congrArg (Factor.ofMatrix (n := 2)) (middle_single hadm)).trans (Factor.ofMatrix_small ?_)
    rwa [hcurvature, abs_of_nonneg (sq_nonneg x)]
  have hfactor : ((empty 1 1 : Memory ℝ 1).append ⟨#v[x], #v[x]⟩).factor = .error (.matrix .single) := by
    rw [hsound.factor_eq_computeFactor, computeFactor, if_pos (by simpa using hsound.theta_pos), hmatrix]
  have he : ¬((empty 1 1 : Memory ℝ 1).append ⟨#v[x], #v[x]⟩).isEmpty := by simp [append, isEmpty]
  rw [hessianProduct, if_neg he, solveMiddle, if_neg he, hfactor]
  rfl

/-- The number one has a factor and `10⁻²⁰` has none, and the pair of steps and changes of that size makes a memory
break down that works with steps and changes of one. -/
theorem breakdown_scale_small : ∃ c : ℝ, 0 < c ∧
    (∃ a : Dense ℝ 1 1, a.toMatrix.IsSymm ∧ a.entry 0 0 ≠ 0 ∧ (∃ f, Checked.factor (ofDense a) = .ok f) ∧
      ∃ why, Checked.factor (ofDense (a.scale c)) = .error (.breakdown (.matrix why))) ∧
    ∃ m m' : Memory ℝ 1, m.Reachable ∧ m'.Reachable ∧ m'.pairs = m.pairs.map (Pair.scale c) ∧
      (∃ r, m.hessianProduct #v[1] = .ok r) ∧
      m'.hessianProduct #v[1] = .error (.breakdown (.matrix .single)) := by
  have hc : (0 : ℝ) < 10 ^ (-20 : ℤ) := by norm_num
  have hsmall : (10 : ℝ) ^ (-20 : ℤ) ≤ Scalar.epsilon := by
    rw [Scalar.epsilon]
    norm_num
  have hsquare : ((10 : ℝ) ^ (-20 : ℤ)) ^ 2 ≤ Scalar.epsilon := by
    rw [Scalar.epsilon]
    norm_num
  generalize (10 : ℝ) ^ (-20 : ℤ) = c at hc hsmall hsquare
  refine ⟨c, hc, ⟨⟨#v[#v[1]]⟩, ?_, one_ne_zero, ?_, .single, ?_⟩, ?_⟩
  · exact Matrix.IsSymm.ext fun i j => by rw [Subsingleton.elim i j]
  · have hone : ¬|(1 : ℝ)| ≤ Scalar.epsilon * max |1| 1 := by
      have hlt := Scalar.epsilon_lt
      norm_num
      linarith
    rw [Checked.factor_ofDense, Factor.ofMatrix_number, if_neg hone]
    exact ⟨_, rfl⟩
  · have hscale : (⟨#v[#v[1]]⟩ : Dense ℝ 1 1).scale c = ⟨#v[#v[c]]⟩ := Dense.ext_entry fun i j => by
      rw [Subsingleton.elim i 0, Subsingleton.elim j 0]
      exact mul_one c
    have hmax : Scalar.epsilon ≤ Scalar.epsilon * max |c| 1 :=
      le_mul_of_one_le_right Scalar.epsilon_pos.le (le_max_right _ _)
    rw [Checked.factor_breaks_iff, hscale, Factor.ofMatrix_number, if_pos]
    exact (abs_of_pos hc).trans_le (hsmall.trans hmax)
  · have hone : ((empty 1 1 : Memory ℝ 1).append ⟨#v[1], #v[1]⟩).Reachable :=
      reachable_single (admissible_number one_ne_zero)
    obtain ⟨f, hf⟩ := factor_unitStep number_unitStep
    obtain ⟨r, hr, -⟩ := hone.sound.exists_hessianProduct hf #v[1]
    refine ⟨_, _, hone, reachable_single (admissible_number hc.ne'), ?_, ⟨r, hr⟩,
      hessianProduct_small hc.ne' hsquare _⟩
    simp [append, empty, scale_unit]

end Memory

end BoxBfgs
