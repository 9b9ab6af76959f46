import BoxBfgs.Proofs.Cauchy
import BoxBfgs.Proofs.Selection
import BoxBfgs.Subspace

namespace BoxBfgs.Subspace

open Matrix

variable {n f : Nat} {b : Box ℝ n} {m : Memory ℝ n} {x g : Vector ℝ n} {p : CauchyPoint ℝ n m.size}
  {places : Vector (Fin n) f}

theorem get_transposeMulVec {r c : Nat} (a : Dense ℝ r c) (v : Vector ℝ r) :
    (a.transposeMulVec v).get = a.toMatrixᵀ *ᵥ v.get := by
  funext j
  simp [Dense.transposeMulVec, mulVec, dotProduct]

theorem toMatrix_rowsW : (m.rowsW places).toMatrix = (Vec.selection places)ᵀ * m.matrixW.toMatrix := by
  ext a j
  have hcol := congrFun (Vec.selection_transpose_mulVec places fun i => m.matrixW.toMatrix i j) a
  have hrow : m.matrixW.toMatrix (places.get a) j = (m.rowsW places).toMatrix a j := by
    rw [← Memory.get_rowW]
    simp [Memory.rowsW, Dense.entry]
  rw [← hrow]
  exact hcol.symm

/-- The middle matrix of the inverse is symmetric as it stands, so that taking the mean changes nothing. -/
theorem toMatrix_system (hm : m.Sound) : (system m places).toMatrix =
    m.middle.toMatrix - m.theta⁻¹ • ((m.rowsW places).toMatrixᵀ * (m.rowsW places).toMatrix) := by
  ext i j
  have hdot (i j : Fin (m.size + m.size)) :
      Vec.dot ((m.rowsW places).rows.map (·.get i)) ((m.rowsW places).rows.map (·.get j)) =
        ((m.rowsW places).toMatrixᵀ * (m.rowsW places).toMatrix) i j := by
    simp [mul_apply, dotProduct, Dense.entry]
  have hgram : ((m.rowsW places).toMatrixᵀ * (m.rowsW places).toMatrix) j i =
      ((m.rowsW places).toMatrixᵀ * (m.rowsW places).toMatrix) i j := by
    rw [← transpose_apply ((m.rowsW places).toMatrixᵀ * (m.rowsW places).toMatrix), transpose_mul, transpose_transpose]
  have hmiddle : m.middle.entry j i = m.middle.entry i j := hm.middle_isSymm.apply i j
  simp only [Dense.toMatrix_apply, system, Dense.symmetrize, Dense.entry_ofFn, hdot, hgram, hmiddle, Matrix.sub_apply,
    Matrix.smul_apply, smul_eq_mul]
  norm_num
  ring

theorem system_isSymm (hm : m.Sound) : (system m places).toMatrix.IsSymm := by
  rw [toMatrix_system hm, IsSymm, transpose_sub, transpose_smul, transpose_mul, transpose_transpose,
    hm.middle_isSymm.eq]

/-- What the products keep of the displacement goes through the matrix of the model, the rest of it is only scaled. -/
theorem modelGradient_split (hm : m.Sound) {z : Vector ℝ n} (hp : p.c.get = m.matrixW.toMatrixᵀ *ᵥ z.get)
    {r : Vector ℝ n} (h : modelGradient m x g p = .ok r) :
    r.get = g.get + m.hessian *ᵥ z.get + m.theta • (p.x.get - x.get - z.get) := by
  rw [modelGradient] at h
  split_ifs at h with he
  · cases h
    rw [Memory.hessian_of_isEmpty he, smul_mulVec, one_mulVec, Vec.get_add, Vec.get_scale_eq, Vec.get_sub, add_assoc,
      ← smul_add, add_sub_cancel]
  · obtain ⟨u, hu, rfl⟩ := map_eq_ok h
    have hc : p.c = m.transposeW z := by
      refine Vec.ext_get ?_
      rw [hp, Memory.get_transposeW]
    rw [hc] at hu
    rw [hm.hessian_mulVec hu, Vec.get_sub, Vec.get_add, Vec.get_scale_eq, Vec.get_sub, Memory.timesW_eq_mulVec,
      smul_sub m.theta (p.x.get - x.get)]
    abel

theorem modelGradient_eq_ok (hm : m.Sound) (hp : p.c.get = m.matrixW.toMatrixᵀ *ᵥ (p.x.get - x.get)) {r : Vector ℝ n}
    (h : modelGradient m x g p = .ok r) : r.get = g.get + m.hessian *ᵥ (p.x.get - x.get) := by
  rw [← Vec.get_sub] at hp ⊢
  rw [modelGradient_split hm hp h, ← Vec.get_sub, sub_self, smul_zero, add_zero]

theorem newtonStep_eq_ok (hm : m.Sound) {r delta : Vector ℝ f} (h : newtonStep m places r = .ok delta) :
    ∃ u : Fin (m.size + m.size) → ℝ,
      (system m places).toMatrix *ᵥ u = (m.rowsW places).toMatrixᵀ *ᵥ r.get ∧
        delta.get = -(m.theta⁻¹ • r.get) - (m.theta * m.theta)⁻¹ • ((m.rowsW places).toMatrix *ᵥ u) := by
  simp only [newtonStep] at h
  split_ifs at h with he
  · cases h
    have hpairs : m.pairs = [] := by simpa [Memory.isEmpty] using he
    have hsize : m.size + m.size = 0 := by simp [Memory.size, hpairs]
    have hnone : IsEmpty (Fin (m.size + m.size)) := by
      rw [hsize]
      exact Fin.isEmpty
    refine ⟨0, funext fun i => hnone.elim i, ?_⟩
    rw [mulVec_zero, smul_zero, sub_zero, Vec.get_divide_eq, Vec.get_neg, smul_neg]
  · split at h
    · cases h
    · rename_i factor hfactor
      rw [Factor.solve?_real] at h
      cases h
      refine ⟨(factor.solve ((m.rowsW places).transposeMulVec r)).get, ?_, ?_⟩
      · rw [Factor.ofMatrix_solve (system_isSymm hm) hfactor, get_transposeMulVec]
      · rw [Vec.get_sub, Vec.get_divide_eq, Vec.get_divide_eq, Vec.get_neg, smul_neg, Dense.get_mulVec]

/-- What a solution of the system gives is a step after which nothing of `r` is left on the chosen coordinates. -/
theorem annuls_of_system (hm : m.Sound) (hinj : Function.Injective places.get) {u : Fin (m.size + m.size) → ℝ}
    {r delta : Fin f → ℝ} (hu : (system m places).toMatrix *ᵥ u = (m.rowsW places).toMatrixᵀ *ᵥ r)
    (hdelta : delta = -(m.theta⁻¹ • r) - (m.theta * m.theta)⁻¹ • ((m.rowsW places).toMatrix *ᵥ u)) :
    (Vec.selection places)ᵀ *ᵥ (m.hessian *ᵥ (Vec.selection places *ᵥ delta)) = -r := by
  have htheta := hm.theta_pos.ne'
  set V := (m.rowsW places).toMatrix with hV
  have hVt : Vᵀ = m.matrixW.toMatrixᵀ * Vec.selection places := by
    rw [hV, toMatrix_rowsW, transpose_mul, transpose_transpose]
  have hK : m.middle.toMatrix *ᵥ u = Vᵀ *ᵥ r + m.theta⁻¹ • (Vᵀ *ᵥ (V *ᵥ u)) := by
    rw [toMatrix_system hm, sub_mulVec, smul_mulVec, ← mulVec_mulVec, sub_eq_iff_eq_add] at hu
    exact hu
  have hz : m.middle.toMatrix *ᵥ (Vector.ofFn (-(m.theta⁻¹ • u))).get =
      (m.transposeW (Vector.ofFn (Vec.selection places *ᵥ delta))).get := by
    rw [Memory.get_transposeW, Vec.get_ofFn_eq, Vec.get_ofFn_eq, mulVec_mulVec, ← hVt, hdelta, mulVec_neg, mulVec_smul,
      hK, mulVec_sub, mulVec_neg, mulVec_smul, mulVec_smul, smul_add, smul_smul, mul_inv, neg_add, sub_eq_add_neg]
  have hB := hm.mulVec_of_middle hz
  rw [Memory.timesW_eq_mulVec, Vec.get_ofFn_eq, Vec.get_ofFn_eq] at hB
  rw [Memory.hessian, hB, mulVec_sub, mulVec_smul, mulVec_mulVec, Vec.selection_transpose_mul hinj, one_mulVec,
    mulVec_mulVec, ← toMatrix_rowsW, ← hV, mulVec_neg, mulVec_smul, hdelta, smul_sub, smul_neg, smul_smul, smul_smul,
    mul_inv_cancel₀ htheta, one_smul, mul_inv, mul_inv_cancel_left₀ htheta]
  abel

theorem newtonStep_annuls (hm : m.Sound) (hinj : Function.Injective places.get) {r delta : Vector ℝ f}
    (h : newtonStep m places r = .ok delta) :
    (Vec.selection places)ᵀ *ᵥ (m.hessian *ᵥ (Vec.selection places *ᵥ delta.get)) = -r.get := by
  obtain ⟨u, hu, hdelta⟩ := newtonStep_eq_ok hm h
  exact annuls_of_system hm hinj hu hdelta

theorem restrict_inside {v : Vector ℝ n} (h : b.Inside v) : (restrict b places).Inside (Vec.gather v places) := by
  intro a
  rw [restrict, Vec.get_gather, Vec.get_gather, Vec.get_gather]
  exact h _

theorem advance_alpha (delta : Vector ℝ f) : (advance b x p places delta).alpha =
    min 1 ((restrict b places).maxStep (Vec.gather p.x places) delta 1) :=
  Scalar.least_real _ _

theorem advance_alpha_nonneg (delta : Vector ℝ f) : 0 ≤ (advance b x p places delta).alpha := by
  rw [advance_alpha]
  exact le_min zero_le_one Box.maxStep_nonneg

theorem advance_alpha_le (delta : Vector ℝ f) : (advance b x p places delta).alpha ≤ 1 := by
  rw [advance_alpha]
  exact min_le_left _ _

/-- Where the step along the chosen coordinates leads to, with the part of it that the box leaves. -/
theorem advance_spec (hinj : Function.Injective places.get) (hp : b.Inside p.x) (delta : Vector ℝ f) :
    let s := advance b x p places delta
    b.Inside s.x ∧ s.x.get = p.x.get + s.alpha • (Vec.selection places *ᵥ delta.get) := by
  intro s
  have hstart : (restrict b places).Inside (Vec.gather p.x places) := restrict_inside hp
  have hroom : s.alpha ≤ (restrict b places).maxStep (Vec.gather p.x places) delta 1 :=
    (advance_alpha delta).trans_le (min_le_right _ _)
  have hin := Box.inside_of_le_maxStep hstart (advance_alpha_nonneg delta) hroom
  have hx : s.x = Vec.scatter p.x places (Vec.gather p.x places + Vec.scale s.alpha delta) := by
    rw [← Box.project_of_inside hin]
    rfl
  refine ⟨fun i => ?_, funext fun i => ?_⟩
  · rw [hx]
    by_cases hi : ∃ a, places.get a = i
    · obtain ⟨a, rfl⟩ := hi
      rw [Vec.get_scatter hinj]
      have ha := hin a
      rwa [restrict, Vec.get_gather, Vec.get_gather] at ha
    · rw [Vec.get_scatter_of_ne _ _ (not_exists.mp hi)]
      exact hp i
  · rw [hx, Pi.add_apply, Pi.smul_apply, smul_eq_mul]
    by_cases hi : ∃ a, places.get a = i
    · obtain ⟨a, rfl⟩ := hi
      rw [Vec.get_scatter hinj, Vec.selection_mulVec hinj, Vec.get_add, Pi.add_apply, Vec.get_scale, Vec.get_gather]
    · rw [Vec.get_scatter_of_ne _ _ (not_exists.mp hi), Vec.selection_mulVec_of_ne _ (not_exists.mp hi), mul_zero,
        add_zero]

/-- The model does not rise along a step that annuls its gradient on some coordinates, nor along a part of it. -/
theorem model_advance_le (hm : m.Sound) {z delta : Fin n → ℝ} {alpha : ℝ} (h0 : 0 ≤ alpha) (h1 : alpha ≤ 1)
    (h : delta ⬝ᵥ (g.get + m.hessian *ᵥ z) = -(delta ⬝ᵥ (m.hessian *ᵥ delta))) :
    m.model g.get (z + alpha • delta) ≤ m.model g.get z := by
  have hcurve := posDef_nonneg hm.hessian_posDef delta
  rw [hm.model_add_smul, h]
  nlinarith [mul_nonneg h0 hcurve]

/-- With no free coordinate the point of the path is kept, else the free ones are moved by the step over them. -/
theorem minimize_cases {s : SubspaceStep ℝ n} (h : minimize b m x g p = .ok s) :
    (Vec.places p.free.get = [] ∧ s = { x := p.x, direction := p.x - x, alpha := 1, free := p.free }) ∨
      ∃ r delta, Vec.places p.free.get ≠ [] ∧ modelGradient m x g p = .ok r ∧
        newtonStep m (Vec.ofList (Vec.places p.free.get)) (Vec.gather r (Vec.ofList (Vec.places p.free.get))) = .ok delta ∧
        s = advance b x p (Vec.ofList (Vec.places p.free.get)) delta := by
  simp only [minimize] at h
  split_ifs at h with hnone
  · cases h
    exact .inl ⟨List.isEmpty_iff.mp hnone, rfl⟩
  · obtain ⟨r, hr, h⟩ := bind_eq_ok h
    obtain ⟨delta, hdelta, rfl⟩ := map_eq_ok h
    exact .inr ⟨r, delta, fun he => hnone (List.isEmpty_iff.mpr he), hr, hdelta, rfl⟩

theorem free_injective (p : CauchyPoint ℝ n m.size) :
    Function.Injective (Vec.ofList (Vec.places p.free.get)).get :=
  Vec.ofList_injective (Vec.places_nodup p.free.get)

theorem inside_of_minimize (hin : b.Inside p.x) {s : SubspaceStep ℝ n} (h : minimize b m x g p = .ok s) :
    b.Inside s.x ∧ s.direction = s.x - x := by
  obtain ⟨-, rfl⟩ | ⟨r, delta, -, -, -, rfl⟩ := minimize_cases h
  · exact ⟨hin, rfl⟩
  · exact ⟨(advance_spec (free_injective p) hin delta).1, rfl⟩

theorem model_minimize_le (hm : m.Sound) (hin : b.Inside p.x)
    (hc : p.c.get = m.matrixW.toMatrixᵀ *ᵥ (p.x.get - x.get)) {s : SubspaceStep ℝ n}
    (h : minimize b m x g p = .ok s) :
    m.model g.get (s.x.get - x.get) ≤ m.model g.get (p.x.get - x.get) := by
  obtain ⟨-, rfl⟩ | ⟨r, delta, -, hr, hdelta, rfl⟩ := minimize_cases h
  · exact le_rfl
  · have hinj := free_injective p
    generalize Vec.ofList (Vec.places p.free.get) = places at hinj hdelta
    obtain ⟨-, hx⟩ := advance_spec (x := x) hinj hin delta
    have hannul := newtonStep_annuls hm hinj hdelta
    rw [Vec.get_gather_eq, modelGradient_eq_ok hm hc hr] at hannul
    have hdot (v : Fin n → ℝ) : (Vec.selection places *ᵥ delta.get) ⬝ᵥ v =
        ((Vec.selection places)ᵀ *ᵥ v) ⬝ᵥ delta.get := by
      rw [dotProduct_comm, dotProduct_mulVec, mulVec_transpose]
    rw [hx, add_sub_right_comm]
    refine model_advance_le hm (advance_alpha_nonneg delta) (advance_alpha_le delta) ?_
    rw [hdot, hdot, hannul, neg_dotProduct, neg_neg]

theorem minimize_spec (hm : m.Sound) (hp : Cauchy.Lower b m x g p) {s : SubspaceStep ℝ n}
    (h : minimize b m x g p = .ok s) :
    b.Inside s.x ∧ s.direction = s.x - x ∧ m.model g.get (s.x.get - x.get) < 0 := by
  obtain ⟨hin, hd⟩ := inside_of_minimize hp.inside h
  exact ⟨hin, hd, (model_minimize_le hm hp.inside hp.c_eq h).trans_lt hp.model_neg⟩

theorem minimize_falls (hm : m.Sound) (hp : Cauchy.Lower b m x g p) {s : SubspaceStep ℝ n}
    (h : minimize b m x g p = .ok s) : g.get ⬝ᵥ s.direction.get < 0 ∧ 1 ≤ b.maxStep x s.direction Box.bigStep := by
  obtain ⟨hin, hd, hlt⟩ := minimize_spec hm hp h
  have hcurve := posDef_nonneg hm.hessian_posDef (s.x.get - x.get)
  refine ⟨?_, ?_⟩
  · rw [Memory.model] at hlt
    rw [hd, Vec.get_sub]
    linarith
  · refine Box.le_maxStep_of_inside ?_ ?_
    · have hback : x + Vec.scale 1 s.direction = s.x := by
        refine Vec.ext_get ?_
        rw [Vec.get_add, Vec.get_scale_eq, one_smul, hd, Vec.get_sub, add_sub_cancel]
      rwa [hback]
    · rw [Box.bigStep]
      norm_num

/-- An empty memory never breaks down on the free coordinates. -/
theorem minimize_of_isEmpty (he : m.isEmpty = true) (b : Box ℝ n) (x g : Vector ℝ n) (p : CauchyPoint ℝ n m.size) :
    ∃ s, minimize b m x g p = .ok s := by
  have hr : modelGradient m x g p = .ok (g + Vec.scale m.theta (p.x - x)) := if_pos he
  have hstep {f : Nat} (places : Vector (Fin n) f) (r : Vector ℝ f) :
      newtonStep m places r = .ok (Vec.divide (-r) m.theta) := if_pos he
  simp only [minimize]
  split_ifs
  · exact ⟨_, rfl⟩
  · rw [hr]
    exact ⟨_, congrArg (Except.map _) (hstep _ _)⟩

/-- The quadratic model of the step through the path and the free coordinates. -/
theorem minimize_descends (hm : m.Reachable) (hx : b.Inside x) (hg : (b.projectedGradient x g).get ≠ 0)
    (hp : Cauchy.point b m x g = .ok p) {s : SubspaceStep ℝ n} (hs : minimize b m x g p = .ok s) :
    b.Inside s.x ∧ s.direction = s.x - x ∧ m.model g.get (s.x.get - x.get) < 0 ∧ g.get ⬝ᵥ s.direction.get < 0 ∧
      1 ≤ b.maxStep x s.direction Box.bigStep := by
  have hlower := Cauchy.point_lower hm.sound hx hg hp
  obtain ⟨hin, hd, hlt⟩ := minimize_spec hm.sound hlower hs
  obtain ⟨hslope, hroom⟩ := minimize_falls hm.sound hlower hs
  exact ⟨hin, hd, hlt, hslope, hroom⟩

theorem minimize_descends_unit : ∃ (b : Box ℝ 1) (m : Memory ℝ 1) (x g : Vector ℝ 1) (p : CauchyPoint ℝ 1 m.size)
    (s : SubspaceStep ℝ 1), b.Inside x ∧ (b.projectedGradient x g).get ≠ 0 ∧ Cauchy.point b m x g = .ok p ∧
      minimize b m x g p = .ok s ∧ m.model g.get (s.x.get - x.get) < 0 ∧ g.get ⬝ᵥ s.direction.get < 0 := by
  let b : Box ℝ 1 := ⟨#v[.fin 0], #v[.fin 2]⟩
  have hm : (Memory.empty 1 1 : Memory ℝ 1).Reachable := .empty (by decide)
  have hx : b.Inside #v[1] := by
    intro i
    fin_cases i
    simp [b, Limit.Between, Vec.get_eq_getElem]
  have hg : (b.projectedGradient #v[1] #v[1]).get ≠ 0 := by
    intro hzero
    have h0 := congrFun hzero 0
    rw [Box.projectedGradient, Vec.get_sub, Pi.sub_apply, Box.get_project, Vec.get_sub, Pi.sub_apply, sub_self] at h0
    change Limit.clamp (.fin 0) (.fin 2) 0 - 1 = (0 : ℝ) at h0
    simp [Limit.clamp, Limit.raise_fin, Limit.lower_fin] at h0
  obtain ⟨p, hp⟩ := Cauchy.point_of_isEmpty (b := b) (m := Memory.empty 1 1) rfl #v[1] #v[1]
  obtain ⟨s, hs⟩ := minimize_of_isEmpty rfl b #v[1] #v[1] p
  obtain ⟨-, -, hlt, hdown, -⟩ := minimize_descends hm hx hg hp hs
  exact ⟨b, _, _, _, p, s, hx, hg, hp, hs, hlt, hdown⟩

end BoxBfgs.Subspace
