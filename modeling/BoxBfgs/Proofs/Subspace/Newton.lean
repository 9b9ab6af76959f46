import BoxBfgs.Proofs.Cauchy.Consistent
import BoxBfgs.Proofs.Memory.Inverse
import BoxBfgs.Proofs.Subspace
import BoxBfgs.Proofs.Translation.Bounds

namespace BoxBfgs.Subspace

open Matrix

variable {n k : Nat} {m : Memory ℝ n} {places : Vector (Fin n) k}

theorem exists_modelGradient {f : Factor ℝ (m.size + m.size)} (hf : m.factor = .ok f) (x g : Vector ℝ n)
    (p : CauchyPoint ℝ n m.size) : ∃ r, modelGradient m x g p = .ok r := by
  rw [modelGradient]
  split_ifs
  · exact ⟨_, rfl⟩
  · obtain ⟨u, hu⟩ := Memory.exists_solveMiddle hf p.c
    rw [hu]
    exact ⟨_, rfl⟩

theorem exists_newtonStep (h : m.isEmpty = true ∨ ∃ e, Factor.ofMatrix (system m places) = .ok e) (r : Vector ℝ k) :
    ∃ delta, newtonStep m places r = .ok delta := by
  simp only [newtonStep]
  split_ifs with he
  · exact ⟨_, rfl⟩
  · obtain ⟨e, hfactor⟩ := h.resolve_left he
    simp only [hfactor, Factor.solve?_real]
    exact ⟨_, rfl⟩

/-- The matrix of the model between the chosen coordinates. -/
noncomputable def reducedHessian (m : Memory ℝ n) (places : Vector (Fin n) k) : Matrix (Fin k) (Fin k) ℝ :=
  (Vec.selection places)ᵀ * m.hessian * Vec.selection places

theorem reducedHessian_mulVec (v : Fin k → ℝ) : reducedHessian m places *ᵥ v =
    (Vec.selection places)ᵀ *ᵥ (m.hessian *ᵥ (Vec.selection places *ᵥ v)) := by
  rw [reducedHessian, ← mulVec_mulVec, ← mulVec_mulVec]

theorem selection_mulVec_injective (hinj : Function.Injective places.get) :
    Function.Injective (Vec.selection places).mulVec := by
  intro v w h
  funext a
  rw [← Vec.selection_mulVec hinj v a, ← Vec.selection_mulVec hinj w a]
  exact congrFun h (places.get a)

theorem reducedHessian_posDef (hm : m.Sound) (hinj : Function.Injective places.get) :
    (reducedHessian m places).PosDef := by
  rw [reducedHessian, ← conjTranspose_eq_transpose_of_trivial]
  exact hm.hessian_posDef.conjTranspose_mul_mul_same (selection_mulVec_injective hinj)

theorem reducedHessian_mulVec_injective (hm : m.Sound) (hinj : Function.Injective places.get) :
    Function.Injective (reducedHessian m places).mulVec :=
  mulVec_injective_of_isUnit (reducedHessian_posDef hm hinj).isUnit

/-- A solution of the system for zero is a step that changes nothing, so that the middle matrix maps it to zero as
well. -/
theorem system_isUnit (hm : m.Sound) (hinj : Function.Injective places.get) : IsUnit (system m places).toMatrix := by
  rw [isUnit_iff_isUnit_det, isUnit_iff_ne_zero]
  intro hdet
  obtain ⟨u, hu, hzero⟩ := exists_mulVec_eq_zero_iff.mpr hdet
  have hstep : reducedHessian m places *ᵥ
      -((m.theta * m.theta)⁻¹ • ((m.rowsW places).toMatrix *ᵥ u)) = reducedHessian m places *ᵥ 0 := by
    rw [reducedHessian_mulVec, mulVec_zero, ← neg_zero]
    apply annuls_of_system hm hinj (u := u)
    · rw [hzero, mulVec_zero]
    · rw [smul_zero, neg_zero, zero_sub]
  have hrows : (m.rowsW places).toMatrix *ᵥ u = 0 := by
    have hscaled := neg_eq_zero.mp (reducedHessian_mulVec_injective hm hinj hstep)
    exact (smul_eq_zero.mp hscaled).resolve_left (inv_ne_zero (mul_self_ne_zero.mpr hm.theta_pos.ne'))
  have hmiddle : m.middle.toMatrix *ᵥ u = m.middle.toMatrix *ᵥ 0 := by
    rwa [toMatrix_system hm, sub_mulVec, smul_mulVec, ← mulVec_mulVec, hrows, mulVec_zero, smul_zero, sub_zero,
      ← mulVec_zero m.middle.toMatrix] at hzero
  exact hu (mulVec_injective_of_isUnit hm.middle_isUnit hmiddle)

theorem newtonStep_eq_iff (hm : m.Sound) (hinj : Function.Injective places.get) {r delta : Vector ℝ k}
    (h : newtonStep m places r = .ok delta) (d : Fin k → ℝ) : reducedHessian m places *ᵥ d = -r.get ↔ d = delta.get := by
  have hdelta : reducedHessian m places *ᵥ delta.get = -r.get := by
    rw [reducedHessian_mulVec, newtonStep_annuls hm hinj h]
  constructor
  · intro hd
    exact reducedHessian_mulVec_injective hm hinj (hd.trans hdelta.symm)
  · rintro rfl
    exact hdelta

theorem system_entry (hm : m.Sound) (places : Vector (Fin n) k) (i j : Fin (m.size + m.size)) :
    (system m places).entry i j =
      m.middle.entry i j - m.theta⁻¹ * ∑ a, (m.rowsW places).entry a i * (m.rowsW places).entry a j :=
  congrFun (congrFun (toMatrix_system hm) i) j

theorem get_triple (a b c : ℝ) : (#v[a, b, c] : Vector ℝ 3).get = ![a, b, c] := by
  funext i
  fin_cases i <;> rfl

/-- A limit on one of three coordinates, for a point that it leaves out. -/
noncomputable def halfSpace : Bounds ℝ 3 :=
  { lower := #v[.fin 0, .negInf, .negInf], upper := .replicate 3 .posInf, kinds := #v[.lower, .free, .free] }

theorem halfSpace_built : halfSpace.Built := by
  apply Bounds.Normal.built
  constructor
  · intro i
    fin_cases i <;> simp [halfSpace, Vec.get_eq_getElem, Kind.hasLower]
  · intro i
    fin_cases i <;> simp [halfSpace, Vec.get_eq_getElem, Kind.hasUpper]
  · intro i
    fin_cases i <;> simp [halfSpace, Vec.get_eq_getElem]
  · intro i
    fin_cases i <;> rfl

theorem halfSpace_inside {v : Vector ℝ 3} (h : 0 ≤ v.get 0) : halfSpace.Inside v := by
  intro i
  fin_cases i
  · simpa [halfSpace, Limit.Between, Vec.get_eq_getElem] using h
  · simp [halfSpace, Limit.Between, Vec.get_eq_getElem]
  · simp [halfSpace, Limit.Between, Vec.get_eq_getElem]

def slantPair : Pair ℝ 3 := ⟨.ofFn ![1, 0, 0], .ofFn ![1, 1, 0]⟩

noncomputable def slantMemory : Memory ℝ 3 := (Memory.empty 3 1).append slantPair

theorem slantPair_unitStep : slantPair.UnitStep 2 where
  step := by simp [slantPair, dotProduct, Fin.sum_univ_three]
  curvature := by simp [slantPair, Pair.curvature, dotProduct, Fin.sum_univ_three]
  change := by simp [slantPair, dotProduct, Fin.sum_univ_three, one_add_one_eq_two]
  one_le := one_le_two
  le := by norm_num

theorem slant_reachable : slantMemory.Reachable :=
  Memory.reachable_single (Memory.admissible_unitStep slantPair_unitStep)

theorem slant_factor : ∃ f, slantMemory.factor = .ok f := Memory.factor_unitStep slantPair_unitStep

theorem slant_theta : slantMemory.theta = 2 := Memory.theta_unitStep slantPair_unitStep

theorem slant_hessian_mulVec (v : Fin 3 → ℝ) :
    slantMemory.hessian *ᵥ v = ![v 0 + v 1, v 0 + 3 * v 1, 2 * v 2] := by
  rw [slantMemory, Memory.hessian_unitStep slantPair_unitStep]
  funext i
  fin_cases i <;> simp [slantPair, dotProduct, Fin.sum_univ_three, Vec.get_eq_getElem]
  ring

/-- The system for any choice of the three coordinates. -/
theorem slant_system (places : Vector (Fin 3) k) {a b c : ℝ}
    (ha : -1 - 2⁻¹ * ∑ l, ![1, 1, 0] (places.get l) * ![1, 1, 0] (places.get l) = a)
    (hb : -(2⁻¹ * ∑ l, ![1, 1, 0] (places.get l) * ![2, 0, 0] (places.get l)) = b)
    (hc : 2 - 2⁻¹ * ∑ l, ![2, 0, 0] (places.get l) * ![2, 0, 0] (places.get l) = c) :
    system slantMemory places = (⟨#v[#v[a, b], #v[b, c]]⟩ : Dense ℝ 2 2) := by
  have h := slant_reachable.sound
  let o : Fin slantMemory.size := ⟨0, Nat.one_pos⟩
  have hpair : slantMemory.pairs.get o = slantPair := rfl
  have hupper (l : Fin k) : (slantMemory.rowsW places).entry l (Fin.castAdd _ o) = ![1, 1, 0] (places.get l) := by
    rw [Memory.rowsW_castAdd, hpair, slantPair, Vec.get_ofFn]
  have hlower (l : Fin k) : (slantMemory.rowsW places).entry l (Fin.natAdd _ o) = ![2, 0, 0] (places.get l) := by
    rw [Memory.rowsW_natAdd, hpair, slant_theta, slantPair, Vec.get_ofFn]
    generalize places.get l = i
    fin_cases i <;> simp
  refine Dense.ext_entry (r := 2) (c := 2) fun i j => ?_
  match i, j with
  | 0, 0 =>
      refine (system_entry h _ (Fin.castAdd _ o) (Fin.castAdd _ o)).trans (Eq.trans ?_ ha)
      simp only [h.middle_upper_upper, if_pos, hupper, hpair, slantPair_unitStep.curvature, slant_theta]
  | 0, 1 =>
      refine (system_entry h _ (Fin.castAdd _ o) (Fin.natAdd _ o)).trans (Eq.trans ?_ hb)
      simp only [h.middle_upper_lower, if_neg (lt_irrefl o), hupper, hlower, slant_theta, zero_sub]
  | 1, 0 =>
      refine (system_entry h _ (Fin.natAdd _ o) (Fin.castAdd _ o)).trans (Eq.trans ?_ hb)
      simp only [h.middle_lower_upper, if_neg (lt_irrefl o), hupper, hlower, slant_theta, zero_sub, mul_comm]
  | 1, 1 =>
      refine (system_entry h _ (Fin.natAdd _ o) (Fin.natAdd _ o)).trans (Eq.trans ?_ hc)
      simp only [h.middle_lower_lower, hlower, hpair, slantPair_unitStep.step, slant_theta, mul_one]

/-- Without the first coordinate the step of the pair is left out of the system. -/
theorem slant_factor_system : ∃ e, Factor.ofMatrix (system slantMemory (#v[1, 2] : Vector (Fin 3) 2)) = .ok e := by
  have hepsilon : (Scalar.epsilon : ℝ) < 1 / 100 := Scalar.epsilon_lt
  have hsystem := slant_system #v[1, 2] (a := -(3 / 2)) (b := 0) (c := 2)
    (by simp [Fin.sum_univ_two, Vec.get_eq_getElem]; norm_num) (by simp [Fin.sum_univ_two, Vec.get_eq_getElem])
    (by simp [Fin.sum_univ_two, Vec.get_eq_getElem])
  obtain ⟨e, he⟩ := Factor.ofMatrix_diagonal (a := 3 / 2) (c := 2) (by norm_num [abs_of_pos]; linarith)
    (by norm_num [abs_of_pos]; linarith)
  exact ⟨e, (congrArg (Factor.ofMatrix (n := 2)) hsystem).trans he⟩

theorem pair_injective : Function.Injective (#v[1, 2] : Vector (Fin 3) 2).get := by
  intro c d h
  fin_cases c <;> fin_cases d <;> simp_all [Vec.get_eq_getElem]

open BoxBfgs.Cauchy

noncomputable abbrev slantSetting (a : ℝ) : Setting ℝ 3 := setting halfSpace.toBox slantMemory #v[a, 0, 0] #v[0, 1, 1]

noncomputable abbrev slantWalk (a : ℝ) : Walk ℝ 3 slantMemory.size :=
  start (slantSetting a) (halfSpace.legs #v[a, 0, 0] #v[0, 1, 1])
    (startCurvature halfSpace.toBox slantMemory #v[a, 0, 0] #v[0, 1, 1])

section

variable {a : ℝ} (ha : a ≤ 0)

include ha

theorem halfSpace_legs :
    halfSpace.legs #v[a, 0, 0] #v[0, 1, 1] = #v[⟨.fin 0, 0⟩, ⟨.posInf, -1⟩, ⟨.posInf, -1⟩] := by
  apply Vec.ext_get
  funext i
  rw [Box.legs, Vec.get_ofFn]
  fin_cases i <;> simp [halfSpace, Leg.of, Limit.finite?, Vec.get_eq_getElem, ha]

theorem halfSpace_breakpoints : breakpoints (halfSpace.legs #v[a, 0, 0] #v[0, 1, 1]) = [] := by
  rw [List.eq_nil_iff_forall_not_mem, halfSpace_legs ha]
  rintro ⟨t, i⟩ h
  obtain ⟨ht, hstop⟩ := mem_breakpoints.mp h
  fin_cases i
  · cases hstop
    exact lt_irrefl _ ht
  · cases hstop
  · cases hstop

theorem slantWalk_d : (slantWalk a).d.get = ![0, -1, -1] := by
  change ((halfSpace.legs #v[a, 0, 0] #v[0, 1, 1]).map Leg.speed).get = _
  rw [halfSpace_legs ha]
  funext i
  fin_cases i <;> simp [Vec.get_eq_getElem]

theorem slantWalk_free : (slantWalk a).free.get = ![false, true, true] := by
  change ((halfSpace.legs #v[a, 0, 0] #v[0, 1, 1]).map Leg.starts).get = _
  rw [halfSpace_legs ha]
  funext i
  fin_cases i <;> simp [Vec.get_eq_getElem, Leg.starts, Limit.undercuts]

theorem slantWalk_rise : rise (slantSetting a) (slantWalk a) = 2 / 5 := by
  have hf1 : (slantWalk a).f1 = -2 := by
    change -Vec.dot (slantWalk a).d (slantWalk a).d = -2
    rw [Vec.dot_real, slantWalk_d ha]
    simp [dotProduct, Fin.sum_univ_three]
    norm_num
  have hf2 : (slantWalk a).f2 = 5 := by
    change (slantWalk a).d.get ⬝ᵥ (slantMemory.hessian *ᵥ (slantWalk a).d.get) = 5
    rw [slant_hessian_mulVec, slantWalk_d ha]
    simp [dotProduct, Fin.sum_univ_three]
    norm_num
  have hahead : (slantWalk a).ahead = some (2 / 5) := by
    change (if (slantWalk a).f2 > 0 then some (-(slantWalk a).f1 / (slantWalk a).f2) else none) = _
    rw [hf1, hf2]
    norm_num
  rw [rise, hahead]
  norm_num

theorem slantWalk_position : position (slantSetting a) (slantWalk a) ((slantWalk a).t + 2 / 5) = ![a, -2 / 5, -2 / 5] := by
  have hx : (slantWalk a).x = #v[a, 0, 0] := rfl
  have ht : (slantWalk a).t = 0 := rfl
  funext i
  rw [position, slantWalk_d ha, hx, ht]
  fin_cases i <;> simp [Vec.get_eq_getElem] <;> norm_num

theorem slant_speeds_ne_zero : ((halfSpace.legs #v[a, 0, 0] #v[0, 1, 1]).map Leg.speed).get ≠ 0 := by
  intro hzero
  have hone := congrFun ((slantWalk_d ha).symm.trans hzero) 1
  simp at hone

theorem slant_finish_x : (finish (slantSetting a) (slantWalk a)).x.get = ![0, -2 / 5, -2 / 5] := by
  rw [finish_eq, slantWalk_rise ha, slantWalk_position ha]
  funext i
  rw [Box.get_project, Vec.get_ofFn]
  fin_cases i <;> norm_num [halfSpace, Vec.get_eq_getElem, Limit.clamp, Limit.raise, Limit.lower, Limit.value]
  exact fun h => le_antisymm ha h

theorem slant_finish_c : (finish (slantSetting a) (slantWalk a)).c.get =
    slantMemory.matrixW.toMatrixᵀ *ᵥ (#v[0, -2 / 5, -2 / 5] : Vector ℝ 3).get := by
  have hc : (slantWalk a).c.get = 0 := funext fun j => Vec.get_replicate 0 j
  have hp : (slantWalk a).p = slantMemory.transposeW (slantWalk a).d := rfl
  rw [finish_eq, slantWalk_rise ha, Vec.get_add, Vec.get_scale_eq, hc, zero_add, hp, Memory.get_transposeW, slantWalk_d ha,
    ← mulVec_smul]
  congr 1
  funext i
  fin_cases i <;> simp [Vec.get_eq_getElem] <;> norm_num

/-- The coordinate that is left out of the box does not start, and is only put to its limit where the path ends. -/
theorem slant_point : ∃ p, point halfSpace.toBox slantMemory #v[a, 0, 0] #v[0, 1, 1] = .ok p ∧
    p.x.get = ![0, -2 / 5, -2 / 5] ∧ p.free.get = ![false, true, true] ∧
    p.c.get = slantMemory.matrixW.toMatrixᵀ *ᵥ (#v[0, -2 / 5, -2 / 5] : Vector ℝ 3).get := by
  obtain ⟨f, hf⟩ := slant_factor
  obtain ⟨u, hu⟩ := Memory.exists_solveMiddle hf
    (slantMemory.transposeW ((halfSpace.legs #v[a, 0, 0] #v[0, 1, 1]).map Leg.speed))
  have hpoint := point_eq_map slant_reachable.sound (slant_speeds_ne_zero ha) hu
  rw [halfSpace_breakpoints ha, walk] at hpoint
  refine ⟨finish (slantSetting a) (slantWalk a), hpoint, slant_finish_x ha, ?_, slant_finish_c ha⟩
  rw [finish_eq, slantWalk_free ha]

end

theorem slant_modelGradient {a : ℝ} {p : CauchyPoint ℝ 3 slantMemory.size} (hx : p.x.get = ![0, -2 / 5, -2 / 5])
    (hc : p.c.get = slantMemory.matrixW.toMatrixᵀ *ᵥ (#v[0, -2 / 5, -2 / 5] : Vector ℝ 3).get) {r : Vector ℝ 3}
    (hr : modelGradient slantMemory #v[a, 0, 0] #v[0, 1, 1] p = .ok r) : r.get = ![-2 / 5 - 2 * a, -1 / 5, 1 / 5] := by
  rw [modelGradient_split slant_reachable.sound hc hr, slant_hessian_mulVec, slant_theta, hx]
  simp only [get_triple]
  funext i
  fin_cases i <;> simp <;> ring

/-- The step over any choice of coordinates is the one that solves the reduced system of the model, whose gradient at a
point of the path is what the step is given. -/
theorem newtonStep_solves (hm : m.Reachable) :
    (∀ f, m.factor = .ok f → ∀ v, ∃ q, m.hessianProduct v = .ok q ∧ q.get = m.hessian *ᵥ v.get) ∧
    (∀ {k : Nat} (places : Vector (Fin n) k), Function.Injective places.get →
      (system m places).toMatrix =
        m.middle.toMatrix - m.theta⁻¹ • ((m.rowsW places).toMatrixᵀ * (m.rowsW places).toMatrix) ∧
      IsUnit (system m places).toMatrix ∧
      ((m.isEmpty = true ∨ ∃ e, Factor.ofMatrix (system m places) = .ok e) → ∀ r, ∃ delta,
        newtonStep m places r = .ok delta ∧ ∀ d, reducedHessian m places *ᵥ d = -r.get ↔ d = delta.get)) ∧
    ∀ (b : Box ℝ n) (x g : Vector ℝ n) (p : CauchyPoint ℝ n m.size), b.Inside x → Cauchy.point b m x g = .ok p →
      (∀ r, modelGradient m x g p = .ok r → r.get = g.get + m.hessian *ᵥ (p.x.get - x.get)) ∧
      ∀ f, m.factor = .ok f → ∃ r, modelGradient m x g p = .ok r := by
  have h := hm.sound
  refine ⟨fun f hf v => h.exists_hessianProduct hf v, fun places hinj => ?_, fun b x g p hx hp => ?_⟩
  · refine ⟨toMatrix_system h, system_isUnit h hinj, fun hfactor r => ?_⟩
    obtain ⟨delta, hdelta⟩ := exists_newtonStep hfactor r
    exact ⟨delta, hdelta, newtonStep_eq_iff h hinj hdelta⟩
  · refine ⟨fun r hr => ?_, fun f hf => exists_modelGradient hf x g p⟩
    exact modelGradient_eq_ok h (Cauchy.point_reached h hx hp).c_eq hr

theorem newtonStep_solves_slant : ∃ (delta : Vector ℝ 2) (p : CauchyPoint ℝ 3 slantMemory.size) (r : Vector ℝ 3),
    slantMemory.Reachable ∧ ¬slantMemory.isEmpty ∧ Function.Injective (#v[1, 2] : Vector (Fin 3) 2).get ∧
      IsUnit (system slantMemory (#v[1, 2] : Vector (Fin 3) 2)).toMatrix ∧
      newtonStep slantMemory (#v[1, 2] : Vector (Fin 3) 2) #v[1, -1] = .ok delta ∧
      (∀ d, reducedHessian slantMemory #v[1, 2] *ᵥ d = -(#v[1, -1] : Vector ℝ 2).get ↔ d = delta.get) ∧
      halfSpace.Inside #v[0, 0, 0] ∧ point halfSpace.toBox slantMemory #v[0, 0, 0] #v[0, 1, 1] = .ok p ∧
      modelGradient slantMemory #v[0, 0, 0] #v[0, 1, 1] p = .ok r ∧
      r.get = (#v[0, 1, 1] : Vector ℝ 3).get + slantMemory.hessian *ᵥ (p.x.get - (#v[0, 0, 0] : Vector ℝ 3).get) := by
  have he : ¬slantMemory.isEmpty := by simp [slantMemory, Memory.append, Memory.isEmpty]
  have hin : halfSpace.Inside #v[0, 0, 0] := halfSpace_inside le_rfl
  obtain ⟨f, hf⟩ := slant_factor
  obtain ⟨-, hsteps, hgradients⟩ := newtonStep_solves slant_reachable
  obtain ⟨-, hunit, hreturns⟩ := hsteps _ pair_injective
  obtain ⟨delta, hdelta, huniq⟩ := hreturns (.inr slant_factor_system) #v[1, -1]
  obtain ⟨p, hp, -⟩ := slant_point (a := 0) le_rfl
  obtain ⟨heq, hexists⟩ := hgradients _ _ _ p hin hp
  obtain ⟨r, hr⟩ := hexists f hf
  exact ⟨delta, p, r, slant_reachable, he, pair_injective, hunit, hdelta, huniq, hin, hp, hr, heq r hr⟩

/-- Seen from a point outside the box the gradient misses what putting coordinates to their limits adds to the
displacement, beyond its scaled part. -/
theorem modelGradient_outside : ∃ p r, halfSpace.Built ∧ slantMemory.Reachable ∧ ¬halfSpace.Inside #v[-1, 0, 0] ∧
    point halfSpace.toBox slantMemory #v[-1, 0, 0] #v[0, 1, 1] = .ok p ∧
    modelGradient slantMemory #v[-1, 0, 0] #v[0, 1, 1] p = .ok r ∧ r.get = ![8 / 5, -1 / 5, 1 / 5] ∧
    (#v[0, 1, 1] : Vector ℝ 3).get + slantMemory.hessian *ᵥ (p.x.get - (#v[-1, 0, 0] : Vector ℝ 3).get) =
      ![3 / 5, 4 / 5, 1 / 5] := by
  obtain ⟨f, hf⟩ := slant_factor
  obtain ⟨p, hp, hx, -, hc⟩ := slant_point (a := -1) (by norm_num)
  obtain ⟨r, hr⟩ := exists_modelGradient hf #v[-1, 0, 0] #v[0, 1, 1] p
  have hleft : ¬halfSpace.Inside #v[-1, 0, 0] := by
    intro hin
    have h0 := (hin 0).1
    norm_num [halfSpace, Vec.get_eq_getElem] at h0
  refine ⟨p, r, halfSpace_built, slant_reachable, hleft, hp, hr, ?_, ?_⟩
  · rw [slant_modelGradient hx hc hr]
    norm_num
  · rw [slant_hessian_mulVec, hx, get_triple, get_triple]
    funext i
    fin_cases i <;> simp <;> norm_num

end BoxBfgs.Subspace
