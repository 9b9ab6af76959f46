import BoxBfgs.Proofs.Run.Exact
import BoxBfgs.Proofs.Subspace.Newton

namespace BoxBfgs

open Matrix

variable {n : Nat} {m : Memory ℝ n} {f : Factor ℝ (m.size + m.size)} {x g : Vector ℝ n}

theorem Bounds.legs_free (x g : Vector ℝ n) (i : Fin n) :
    ((Bounds.free n).legs x g).get i = ⟨.posInf, -g.get i⟩ := by
  have hof (a b : ℝ) : Leg.of a b .negInf .posInf = ⟨.posInf, -b⟩ := by simp [Leg.of, Limit.finite?]
  simpa [Box.legs, Bounds.free] using hof _ _

namespace Cauchy

theorem breakpoints_free (x g : Vector ℝ n) : breakpoints ((Bounds.free n).legs x g) = [] := by
  rw [List.eq_nil_iff_forall_not_mem]
  rintro ⟨t, i⟩ h
  have hstop := (mem_breakpoints.mp h).2
  rw [Bounds.legs_free] at hstop
  cases hstop

theorem speeds_free (x g : Vector ℝ n) : ((Bounds.free n).legs x g).map Leg.speed = -g := by
  refine Vec.ext_get (funext fun i => ?_)
  rw [Vec.get_map, Bounds.legs_free, Vec.get_neg]
  rfl

theorem starts_free (x g : Vector ℝ n) (i : Fin n) : (((Bounds.free n).legs x g).map Leg.starts).get i = true := by
  rw [Vec.get_map, Bounds.legs_free]
  rfl

/-- Without limits the path is a straight line, which no coordinate leaves. -/
theorem exists_point_free (hm : m.Sound) (hf : m.factor = .ok f) (x g : Vector ℝ n) :
    ∃ p, point (Bounds.free n).toBox m x g = .ok p ∧ (∀ i, p.free.get i = true) ∧
      p.c.get = m.matrixW.toMatrixᵀ *ᵥ (p.x.get - x.get) := by
  by_cases hg : g.get = 0
  · have hnone : Vec.anyNonzero (((Bounds.free n).legs x g).map Leg.speed) = false := by
      rw [← Bool.not_eq_true, Vec.anyNonzero_iff, speeds_free, Vec.get_neg, hg, neg_zero, not_ne_iff]
    simp only [point, hnone, Bool.not_false, if_true]
    -- The path stays where it is, with a displacement of zero.
    refine ⟨_, rfl, starts_free x g, ?_⟩
    rw [sub_self, mulVec_zero]
    exact funext fun i => Vec.get_replicate 0 i
  · have hsome : Vec.anyNonzero (((Bounds.free n).legs x g).map Leg.speed) = true := by
      rwa [Vec.anyNonzero_iff, speeds_free, Vec.get_neg, neg_ne_zero]
    have hsteep : ((Bounds.free n).projectedGradient x g).get ≠ 0 := by
      rw [Box.projectedGradient, Bounds.project_free, Vec.get_sub, Vec.get_sub, sub_sub_cancel_left, neg_ne_zero]
      exact hg
    obtain ⟨u, hu⟩ := Memory.exists_solveMiddle hf (m.transposeW (((Bounds.free n).legs x g).map Leg.speed))
    obtain ⟨p, hp, hfree⟩ : ∃ p, point (Bounds.free n).toBox m x g = .ok p ∧ ∀ i, p.free.get i = true := by
      simp only [point, hsome, Bool.not_true, Bool.false_eq_true, if_false, hu, Except.bind, breakpoints_free, walk,
        Except.map]
      exact ⟨_, rfl, starts_free x g⟩
    exact ⟨p, hp, hfree, (point_lower hm (Bounds.free_inside x) hsteep hp).c_eq⟩

end Cauchy

namespace Subspace

variable {k : Nat} {p : CauchyPoint ℝ n m.size} {places : Vector (Fin n) k}

theorem system_of_toList (h : places.toList = List.finRange n) : system m places = system m (.ofFn id) := by
  obtain rfl : k = n := by simpa using congrArg List.length h
  have hid : places = .ofFn id := by
    rw [← Vector.toList_inj, h, Vector.toList_ofFn]
    exact (List.ofFn_id _).symm
  rw [hid]

theorem advance_free (delta : Vector ℝ k) : (advance (Bounds.free n).toBox x p places delta).alpha = 1 := by
  have hfree (u : Vector ℝ k) : (restrict (Bounds.free n).toBox places).Inside u := by
    intro a
    simp [restrict, Bounds.free, Limit.Between]
  exact (Scalar.least_real _ _).trans (min_eq_left (Box.le_maxStep_of_inside (hfree _) le_rfl))

/-- A step over all coordinates that annuls the gradient of the model leads to the model's minimum. -/
theorem direction_eq (hm : m.Sound) (hall : places.toList = List.finRange n)
    (hc : p.c.get = m.matrixW.toMatrixᵀ *ᵥ (p.x.get - x.get)) {r : Vector ℝ n} (hr : modelGradient m x g p = .ok r)
    {delta : Vector ℝ k} (hdelta : newtonStep m places (Vec.gather r places) = .ok delta) :
    (advance (Bounds.free n).toBox x p places delta).direction = -m.inverseHessianProduct g := by
  have hinj : Function.Injective places.get := Vec.injective_of_nodup (hall ▸ List.nodup_finRange n)
  -- The chosen coordinates are all there are, so that what is annulled on them is annulled altogether.
  have hsurj (i : Fin n) : ∃ a, places.get a = i := by
    have hi : i ∈ places.toList := hall ▸ List.mem_finRange i
    obtain ⟨a, ha, hai⟩ := List.getElem_of_mem hi
    exact ⟨⟨a, by simpa using ha⟩, by simpa [Vec.get_eq_getElem] using hai⟩
  obtain ⟨-, hx⟩ := advance_spec (x := x) hinj (Bounds.free_inside p.x) delta
  have hannul := newtonStep_annuls hm hinj hdelta
  have hnewton : m.hessian *ᵥ (Vec.selection places *ᵥ delta.get) = -r.get := by
    funext i
    obtain ⟨a, rfl⟩ := hsurj i
    rw [Vec.selection_transpose_mulVec] at hannul
    simpa using congrFun hannul a
  rw [modelGradient_eq_ok hm hc hr] at hnewton
  have hmin : m.hessian *ᵥ ((advance (Bounds.free n).toBox x p places delta).x.get - x.get) = -g.get := by
    rw [hx, advance_free, one_smul, add_sub_right_comm, mulVec_add, hnewton]
    abel
  have hinverse : m.inverseHessianProduct g = -((advance (Bounds.free n).toBox x p places delta).x - x) := by
    apply hm.inverse_of_hessian_mulVec
    rw [Vec.get_neg, Vec.get_sub, mulVec_neg, hmin, neg_neg]
  refine Vec.ext_get ?_
  rw [hinverse, Vec.get_neg, Vec.get_neg, neg_neg]
  rfl

theorem exists_minimize_free (hm : m.Sound) (hf : m.factor = .ok f) {e : Factor ℝ (m.size + m.size)}
    (he : Factor.ofMatrix (system m (.ofFn id)) = .ok e) (hfree : ∀ i, p.free.get i = true)
    (hc : p.c.get = m.matrixW.toMatrixᵀ *ᵥ (p.x.get - x.get)) :
    ∃ t, minimize (Bounds.free n).toBox m x g p = .ok t ∧ t.direction = -m.inverseHessianProduct g ∧ t.alpha = 1 := by
  have hplaces : Vec.places p.free.get = List.finRange n := List.filter_eq_self.mpr fun i _ => hfree i
  obtain ⟨r, hr⟩ := exists_modelGradient hf x g p
  have hall : (Vec.ofList (Vec.places p.free.get)).toList = List.finRange n := hplaces
  simp only [minimize]
  split_ifs with hnone
  · rw [hplaces, List.isEmpty_iff, List.finRange_eq_nil_iff] at hnone
    subst hnone
    exact ⟨_, rfl, Vec.ext_get (funext fun i => i.elim0), rfl⟩
  · rw [hr]
    generalize Vec.ofList (Vec.places p.free.get) = places at hall
    rw [← system_of_toList hall] at he
    obtain ⟨delta, hdelta⟩ := exists_newtonStep (.inr ⟨e, he⟩) (Vec.gather r places)
    refine ⟨advance (Bounds.free n).toBox x p places delta, ?_, direction_eq hm hall hc hr hdelta, advance_free delta⟩
    exact congrArg (Except.map _) hdelta

/-- With all coordinates the system is one that couples the change of the pair with its step. -/
theorem slant_factor_whole : ∃ e, Factor.ofMatrix (system slantMemory (.ofFn id)) = .ok e := by
  have hepsilon : (Scalar.epsilon : ℝ) < 1 / 100 := Scalar.epsilon_lt
  have hsystem := slant_system (.ofFn id) (a := -2) (b := -1) (c := 0)
    (by simp [Fin.sum_univ_three]; norm_num) (by simp [Fin.sum_univ_three]) (by simp [Fin.sum_univ_three])
  set a : Dense ℝ 2 2 := ⟨#v[#v[-2, -1], #v[-1, 0]]⟩
  have hsymm : a.toMatrix.IsSymm := by
    apply Matrix.IsSymm.ext
    intro i j
    fin_cases i <;> fin_cases j <;> rfl
  have hmax : a.maxAbs = 2 := by simp [a, Dense.maxAbs, Vec.maxAbs, Vector.foldl]
  obtain ⟨e, he⟩ : ∃ e, Factor.ofMatrix a = .ok e := by
    apply Factor.ofMatrix_pair hsymm
    · have hratio := Factor.ratio_le_one
      norm_num [a, Dense.entry, Vec.get_eq_getElem]
      linarith
    · rw [Factor.tolerance, hmax]
      norm_num [a, Dense.entry, Vec.get_eq_getElem]
      linarith
    · rw [Factor.tolerance, hmax]
      norm_num [a, Dense.entry, Vec.get_eq_getElem]
      linarith
  exact ⟨e, (congrArg (Factor.ofMatrix (n := 2)) hsystem).trans he⟩

end Subspace

namespace Run

variable {κ : Type} {s : Setup ℝ κ n} {it : Iterate ℝ n}

/-- Without limits the way through the path and the free coordinates ends in the same search as the product with the
inverse, which the run takes instead. -/
theorem subspace_eq_of_free (hs : s.bounds = .free n) (hm : it.memory.Reachable)
    (hf : ∃ f, it.memory.factor = .ok f) (he : ∃ e, Factor.ofMatrix (Subspace.system it.memory (.ofFn id)) = .ok e) :
    ∃ c t, Cauchy.point s.bounds.toBox it.memory it.point.x it.point.g = .ok c ∧
      Subspace.minimize s.bounds.toBox it.memory it.point.x it.point.g c = .ok t ∧
      t.direction = -it.memory.inverseHessianProduct it.point.g ∧ t.alpha = 1 ∧ t.truncated = false ∧
      ∀ p w, cauchy s it p w = ⟨.subspace it none, p, w⟩ ∧ subspace s it (some c) p w = subspace s it none p w := by
  obtain ⟨f, hf⟩ := hf
  obtain ⟨e, he⟩ := he
  have hu : s.bounds.unconstrained = true := by
    rw [hs]
    simp [Bounds.free, Bounds.unconstrained]
  obtain ⟨c, hpoint, hfree, hc⟩ := Cauchy.exists_point_free hm.sound hf it.point.x it.point.g
  obtain ⟨t, ht, hdirection, halpha⟩ := Subspace.exists_minimize_free (g := it.point.g) hm.sound hf he hfree hc
  have hwhole : t.truncated = false := by simp [SubspaceStep.truncated, halpha]
  rw [← hs] at hpoint ht
  refine ⟨c, t, hpoint, ht, hdirection, halpha, hwhole, fun p w => ⟨if_pos hu, ?_⟩⟩
  simp only [subspace, ht, hwhole, hdirection, Bool.false_eq_true, if_false]

theorem subspace_eq_of_free_slant : ∃ (s : Setup ℝ Unit 3) (it : Iterate ℝ 3) (c : CauchyPoint ℝ 3 it.memory.size)
    (t : SubspaceStep ℝ 3), s.bounds = .free 3 ∧ it.memory.Reachable ∧ ¬it.memory.isEmpty ∧
      Cauchy.point s.bounds.toBox it.memory it.point.x it.point.g = .ok c ∧
      Subspace.minimize s.bounds.toBox it.memory it.point.x it.point.g c = .ok t ∧
      t.direction = -it.memory.inverseHessianProduct it.point.g ∧ t.alpha = 1 ∧ t.truncated = false ∧
      ∀ p w, cauchy s it p w = ⟨.subspace it none, p, w⟩ ∧ subspace s it (some c) p w = subspace s it none p w := by
  let s : Setup ℝ Unit 3 := Solver.squareSolver.setup
    { n := 3, objective := .combined Solver.square, options := .standard, bounds := .free 3, start := .replicate 3 0 }
  let it : Iterate ℝ 3 := ⟨{ x := #v[0, 1, 0], f := 1, g := #v[1, 0, 1] }, none, Subspace.slantMemory⟩
  have hm : it.memory.Reachable := Subspace.slant_reachable
  have hne : ¬it.memory.isEmpty := by simp [it, Subspace.slantMemory, Memory.append, Memory.isEmpty]
  have hf : ∃ f, it.memory.factor = .ok f := Subspace.slant_factor
  have he : ∃ e, Factor.ofMatrix (Subspace.system it.memory (.ofFn id)) = .ok e := Subspace.slant_factor_whole
  obtain ⟨c, t, hpoint, ht, hdirection, halpha, hwhole, hsame⟩ := subspace_eq_of_free (s := s) rfl hm hf he
  exact ⟨s, it, c, t, rfl, hm, hne, hpoint, ht, hdirection, halpha, hwhole, hsame⟩

end Run

end BoxBfgs
