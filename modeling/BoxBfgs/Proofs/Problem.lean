import BoxBfgs.Proofs.Basic
import BoxBfgs.Problem

namespace BoxBfgs.Problem

open Asymptotics Filter Matrix MvPolynomial Topology

section

variable {n : Nat} {x g : Vector ℝ n} {f : Vector ℝ n → ℝ} {r : MvPolynomial (Fin n) ℝ}

/-- The product with a vector, as a linear map. -/
noncomputable def along (g : Vector ℝ n) : (Fin n → ℝ) →L[ℝ] ℝ := ∑ i, g.get i • ContinuousLinearMap.proj i

/-- Along a step from `x` a function changes by the product of the step with `g`, up to a polynomial in the step whose
terms are all of order two or above; in particular this product is its derivative. -/
structure Gradient (f : Vector ℝ n → ℝ) (x g : Vector ℝ n) : Prop where
  remainder : ∃ r : MvPolynomial (Fin n) ℝ, (∀ m ∈ r.support, 2 ≤ m.degree) ∧
    ∀ h, f (x + h) - f x - Vec.dot g h = r.eval h.get
  derivative : HasFDerivAt (fun y => f (.ofFn y)) (along g) x.get

theorem along_apply (g h : Vector ℝ n) : along g h.get = Vec.dot g h := by
  simp [along, dotProduct]

theorem X_mem (i : Fin n) : (X i : MvPolynomial (Fin n) ℝ) ∈ idealOfVars (Fin n) ℝ := Ideal.subset_span ⟨i, rfl⟩

theorem X_mul_X_mem (i j : Fin n) : (X i * X j : MvPolynomial (Fin n) ℝ) ∈ idealOfVars (Fin n) ℝ ^ 2 := by
  rw [sq]
  exact Ideal.mul_mem_mul (X_mem i) (X_mem j)

theorem eval_isBigO (hr : r ∈ idealOfVars (Fin n) ℝ) : (fun h : Fin n → ℝ => r.eval h) =O[𝓝 0] fun h => ‖h‖ := by
  induction hr using Submodule.span_induction with
  | mem p hp =>
      obtain ⟨i, rfl⟩ := hp
      simp only [eval_X]
      exact .of_bound 1 (.of_forall fun h => by simpa using norm_le_pi_norm h i)
  | zero => simpa using isBigO_zero _ _
  | add p q _ _ hp hq => simpa using hp.add hq
  | smul c p _ hp =>
      have hc : (fun h : Fin n → ℝ => c.eval h) =O[𝓝 0] fun _ => (1 : ℝ) :=
        (MvPolynomial.continuous_eval c).continuousAt.isBigO_one ℝ
      simpa using hc.smul hp

theorem eval_isLittleO (hr : r ∈ idealOfVars (Fin n) ℝ ^ 2) : (fun h : Fin n → ℝ => r.eval h) =o[𝓝 0] fun h => h := by
  have hsquare : (fun h : Fin n → ℝ => r.eval h) =O[𝓝 0] fun h => ‖h‖ * ‖h‖ := by
    rw [sq] at hr
    induction hr using Submodule.mul_induction_on' with
    | mem_mul_mem p hp q hq => simpa using (eval_isBigO hp).mul (eval_isBigO hq)
    | add p _ q _ hp hq => simpa using hp.add hq
  refine hsquare.trans_isLittleO ?_
  simpa [sq] using (isLittleO_norm_pow_id one_lt_two : (fun h : Fin n → ℝ => ‖h‖ ^ 2) =o[𝓝 0] fun h => h)

theorem Gradient.of_mem (hr : r ∈ idealOfVars (Fin n) ℝ ^ 2)
    (h : ∀ h, f (x + h) - f x - Vec.dot g h = r.eval h.get) : Gradient f x g where
  remainder := ⟨r, (mem_pow_idealOfVars_iff 2 r).mp hr, h⟩
  derivative := by
    rw [hasFDerivAt_iff_isLittleO_nhds_zero]
    refine (eval_isLittleO hr).congr_left fun y => ?_
    have hy : (Vector.ofFn y).get = y := Vec.get_ofFn_eq y
    have hx : (Vector.ofFn x.get : Vector ℝ n) = x := Vec.ext_get (Vec.get_ofFn_eq _)
    have hsum : (Vector.ofFn (x.get + y) : Vector ℝ n) = x + .ofFn y := Vec.ext_get (by simp [Vec.get_ofFn_eq])
    have hrest := h (.ofFn y)
    rw [← along_apply, hy] at hrest
    rw [hsum, hx, hrest]

theorem sphere_gradient (x : Vector ℝ n) : Gradient (fun y => (sphere y).1) x (sphere x).2 := by
  refine .of_mem (r := ∑ i, X i * X i) (Ideal.sum_mem _ fun i _ => X_mul_X_mem i i) fun h => ?_
  have hrest : (∑ i, X i * X i : MvPolynomial (Fin n) ℝ).eval h.get = h.get ⬝ᵥ h.get := by simp [dotProduct]
  have hsquare : (x.get + h.get) ⬝ᵥ (x.get + h.get) = x.get ⬝ᵥ x.get + 2 * (x.get ⬝ᵥ h.get) + h.get ⬝ᵥ h.get := by
    rw [add_dotProduct, dotProduct_add, dotProduct_add, dotProduct_comm h.get x.get]
    ring
  have htwo : (2.0 : ℝ) = 2 := by norm_num
  simp only [sphere, Vec.dot_real, Vec.get_add, Vec.get_scale_eq, hsquare, hrest, smul_dotProduct, smul_eq_mul, htwo]
  ring

theorem quadratic_gradient {q : Dense ℝ n n} (hq : ∀ i j, q.entry i j = q.entry j i) (b x : Vector ℝ n) :
    Gradient (fun y => (quadratic q b y).1) x (quadratic q b x).2 := by
  refine .of_mem (r := ∑ i, ∑ j, C (q.entry i j / 2) * (X i * X j))
    (Ideal.sum_mem _ fun i _ => Ideal.sum_mem _ fun j _ => Ideal.mul_mem_left _ _ (X_mul_X_mem i j)) fun h => ?_
  have hrest : (∑ i, ∑ j, C (q.entry i j / 2) * (X i * X j) : MvPolynomial (Fin n) ℝ).eval h.get =
      h.get ⬝ᵥ q.toMatrix *ᵥ h.get / 2 := by
    simp only [map_sum, map_mul, eval_C, eval_X, dotProduct, mulVec, Finset.mul_sum, Finset.sum_div,
      Dense.toMatrix_apply]
    exact Finset.sum_congr rfl fun i _ => Finset.sum_congr rfl fun j _ => by ring
  have hsymm : q.toMatrixᵀ = q.toMatrix := Matrix.ext fun i j => hq j i
  have hswap : h.get ⬝ᵥ q.toMatrix *ᵥ x.get = x.get ⬝ᵥ q.toMatrix *ᵥ h.get := by
    rw [dotProduct_mulVec, ← mulVec_transpose, hsymm, dotProduct_comm]
  have hhalf : (0.5 : ℝ) = 1 / 2 := by norm_num
  simp only [quadratic, Vec.dot_real, Vec.get_add, Vec.get_sub, Vec.get_scale_eq, Dense.get_mulVec, hrest, hhalf,
    smul_dotProduct, smul_eq_mul, mulVec_add, add_dotProduct, dotProduct_add, sub_dotProduct, hswap,
    dotProduct_comm (q.toMatrix *ᵥ x.get) h.get]
  ring

end

section

variable {n : Nat}

/-- A term of the sum, for two neighbours. -/
noncomputable def link (a b : ℝ) : ℝ := 100.0 * square (b - square a) + square (1 - a)

noncomputable def firstSlope (a b : ℝ) : ℝ := -400.0 * a * (b - square a) - 2.0 * (1 - a)

noncomputable def secondSlope (a b : ℝ) : ℝ := 200.0 * (b - square a)

theorem rosenbrockValue_succ (x : Vector ℝ (n + 1)) :
    rosenbrockValue x = ∑ i : Fin n, link (x.get i.castSucc) (x.get i.succ) := by
  rw [rosenbrockValue, Vec.sum_ofFn]
  rfl

/-- What a coordinate adds to the gradient as the first of a link. -/
noncomputable def asFirst (x : Vector ℝ n) (i : Fin n) : ℝ :=
  if h : i.val + 1 < n then firstSlope (x.get i) (x.get ⟨i.val + 1, h⟩) else 0

theorem before_lt (i : Fin n) : i.val - 1 < n := by omega

noncomputable def asSecond (x : Vector ℝ n) (i : Fin n) : ℝ :=
  if i.val = 0 then 0 else secondSlope (x.get ⟨i.val - 1, before_lt i⟩) (x.get i)

theorem get_rosenbrockGradient (x : Vector ℝ n) (i : Fin n) :
    (rosenbrockGradient x).get i = asFirst x i + asSecond x i := by
  simp only [rosenbrockGradient, Vec.get_ofFn, asFirst, asSecond, firstSlope, secondSlope]

@[simp] theorem asFirst_castSucc (x : Vector ℝ (n + 1)) (i : Fin n) :
    asFirst x i.castSucc = firstSlope (x.get i.castSucc) (x.get i.succ) := by
  simp [asFirst, Fin.succ]

@[simp] theorem asFirst_last (x : Vector ℝ (n + 1)) : asFirst x (Fin.last n) = 0 := by simp [asFirst]

@[simp] theorem asSecond_succ (x : Vector ℝ (n + 1)) (i : Fin n) :
    asSecond x i.succ = secondSlope (x.get i.castSucc) (x.get i.succ) := by
  simp [asSecond, Fin.castSucc, Fin.castAdd, Fin.castLE]

@[simp] theorem asSecond_zero (x : Vector ℝ (n + 1)) : asSecond x 0 = 0 := by simp [asSecond]

/-- An inner coordinate is the first of one link and the second of the link before. -/
theorem dot_rosenbrockGradient (x h : Vector ℝ (n + 1)) : Vec.dot (rosenbrockGradient x) h =
    ∑ i : Fin n, (firstSlope (x.get i.castSucc) (x.get i.succ) * h.get i.castSucc +
      secondSlope (x.get i.castSucc) (x.get i.succ) * h.get i.succ) := by
  calc Vec.dot (rosenbrockGradient x) h
      = ∑ i, asFirst x i * h.get i + ∑ i, asSecond x i * h.get i := by
        simp only [Vec.dot_real, dotProduct, get_rosenbrockGradient, add_mul, Finset.sum_add_distrib]
    _ = ∑ i : Fin n, asFirst x i.castSucc * h.get i.castSucc + ∑ i : Fin n, asSecond x i.succ * h.get i.succ := by
        rw [Fin.sum_univ_castSucc, Fin.sum_univ_succ fun i => asSecond x i * h.get i]
        simp
    _ = _ := by simp only [asFirst_castSucc, asSecond_succ, Finset.sum_add_distrib]

/-- What a step leaves of the change of a link, in the steps of its two ends. -/
noncomputable def linkRest (a b : ℝ) (p q : MvPolynomial (Fin n) ℝ) : MvPolynomial (Fin n) ℝ :=
  C (1 - secondSlope a b) * p ^ 2 + C 100.0 * (q - C (a + a) * p - p * p) ^ 2

theorem linkRest_mem (a b : ℝ) {p q : MvPolynomial (Fin n) ℝ} (hp : p ∈ idealOfVars (Fin n) ℝ)
    (hq : q ∈ idealOfVars (Fin n) ℝ) : linkRest a b p q ∈ idealOfVars (Fin n) ℝ ^ 2 := by
  have hchange : q - C (a + a) * p - p * p ∈ idealOfVars (Fin n) ℝ :=
    Ideal.sub_mem _ (Ideal.sub_mem _ hq (Ideal.mul_mem_left _ _ hp)) (Ideal.mul_mem_left _ _ hp)
  rw [linkRest]
  exact Ideal.add_mem _ (Ideal.mul_mem_left _ _ (Ideal.pow_mem_pow hp 2))
    (Ideal.mul_mem_left _ _ (Ideal.pow_mem_pow hchange 2))

theorem link_change (a b : ℝ) (p q : MvPolynomial (Fin n) ℝ) (h : Fin n → ℝ) :
    link (a + p.eval h) (b + q.eval h) - link a b - (firstSlope a b * p.eval h + secondSlope a b * q.eval h) =
      (linkRest a b p q).eval h := by
  norm_num [link, firstSlope, secondSlope, linkRest, square]
  ring

theorem rosenbrock_gradient (x : Vector ℝ n) : Gradient rosenbrockValue x (rosenbrockGradient x) := by
  cases n with
  | zero => exact .of_mem (Ideal.zero_mem _) fun h => by simp [rosenbrockValue, dotProduct]
  | succ n =>
      refine .of_mem (r := ∑ i : Fin n, linkRest (x.get i.castSucc) (x.get i.succ) (X i.castSucc) (X i.succ))
        (Ideal.sum_mem _ fun i _ => linkRest_mem _ _ (X_mem _) (X_mem _)) fun h => ?_
      simp only [rosenbrockValue_succ, dot_rosenbrockGradient, map_sum, ← link_change, eval_X, Vec.get_add,
        Pi.add_apply, Finset.sum_sub_distrib]

end

/-- The gradients of the problems are those of their values, for any number of coordinates. -/
theorem gradients_true {n : Nat} (x : Vector ℝ n) {q : Dense ℝ n n} (hq : ∀ i j, q.entry i j = q.entry j i)
    (b : Vector ℝ n) :
    Gradient (fun y => (sphere y).1) x (sphere x).2 ∧ Gradient rosenbrockValue x (rosenbrockGradient x) ∧
      Gradient (fun y => (rosenbrock y).1) x (rosenbrock x).2 ∧
      Gradient (fun y => (quadratic q b y).1) x (quadratic q b x).2 :=
  ⟨sphere_gradient x, rosenbrock_gradient x, rosenbrock_gradient x, quadratic_gradient hq b x⟩

/-- A form with a mixed term. -/
def mixed : Dense ℝ 2 2 := ⟨#v[#v[1, 1], #v[1, 0]]⟩

theorem gradients_true_mixed : (∀ i j, mixed.entry i j = mixed.entry j i) ∧
    Gradient (fun y => (quadratic mixed #v[1, 0] y).1) #v[1, 2] #v[2, 1] ∧
    Gradient rosenbrockValue #v[1, 2] #v[-400, 200] := by
  have hsymm : ∀ i j, mixed.entry i j = mixed.entry j i := by
    intro i j
    fin_cases i <;> fin_cases j <;> rfl
  have hquadratic : (quadratic mixed #v[1, 0] #v[1, 2]).2 = #v[2, 1] := by
    refine Vec.ext_get (funext fun i => ?_)
    simp only [quadratic, Vec.get_sub, Dense.get_mulVec]
    fin_cases i <;> norm_num [mixed, mulVec, dotProduct, Fin.sum_univ_two, Dense.entry, Vec.get_eq_getElem]
  have hrosenbrock : rosenbrockGradient (#v[1, 2] : Vector ℝ 2) = #v[-400, 200] := by
    refine Vec.ext_get (funext fun i => ?_)
    fin_cases i <;> norm_num [rosenbrockGradient, square, Vec.get_eq_getElem]
  obtain ⟨-, hvalley, -, hform⟩ := gradients_true #v[1, 2] hsymm #v[1, 0]
  rw [hquadratic] at hform
  rw [hrosenbrock] at hvalley
  exact ⟨hsymm, hform, hvalley⟩

end BoxBfgs.Problem
