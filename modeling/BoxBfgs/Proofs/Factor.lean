import BoxBfgs.Proofs.Basic
import BoxBfgs.Factor

namespace BoxBfgs

open Matrix

variable {n : Nat}

namespace Vec

theorem get_exchange {β : Type} (v : Vector β n) (i j : Fin n) : (exchange v i j).get = v.get ∘ Equiv.swap i j := by
  funext k
  simp only [exchange, get_eq_getElem, Vector.getElem_swap, Function.comp_apply, Equiv.swap_apply_def, Fin.ext_iff]
  split_ifs <;> rfl

@[simp] theorem tail_cons {β : Type} (a : β) (v : Vector β n) : tail (cons a v) = v := by
  apply Vector.ext
  intro i hi
  have h := get_tail (cons a v) ⟨i, hi⟩
  rwa [get_cons_succ] at h

@[simp] theorem get_cons_one {β : Type} (a : β) (v : Vector β (n + 1)) : (cons a v).get 1 = v.get 0 :=
  get_cons_succ a v 0

end Vec

namespace Dense

theorem toMatrix_exchange (a : Dense ℝ n n) (p q : Fin n) :
    (a.exchange p q).toMatrix = a.toMatrix.submatrix (Equiv.swap p q) (Equiv.swap p q) := by
  ext i j
  simp only [toMatrix_apply, exchange, entry_ofFn, Matrix.submatrix_apply, Equiv.swap_apply_def]

theorem toMatrix_ofLower {f : Fin n → Fin n → ℝ} (hf : ∀ i j, f i j = f j i) :
    (ofLower f).toMatrix = Matrix.of f := by
  ext i j
  simp only [toMatrix_apply, ofLower, entry_ofFn, Matrix.of_apply]
  split_ifs
  · rfl
  · exact hf j i

theorem ofLower_isSymm (f : Fin n → Fin n → ℝ) : (ofLower f).toMatrix.IsSymm := by
  refine Matrix.IsSymm.ext fun i j => ?_
  simp only [toMatrix_apply, ofLower, entry_ofFn]
  split_ifs with h h'
  · rw [le_antisymm h h']
  · rfl
  · rfl
  · exact absurd (le_total i j) (by simp_all)

theorem entry_symm {a : Dense ℝ n n} (ha : a.toMatrix.IsSymm) (i j : Fin n) : a.entry i j = a.entry j i :=
  ha.apply j i

theorem exchange_self (a : Dense ℝ n n) (p : Fin n) : a.exchange p p = a := by
  refine ext_entry fun i j => ?_
  have hplace (k : Fin n) : (if k = p then p else if k = p then p else k) = k := by
    split_ifs with h
    · exact h.symm
    · rfl
  simp only [exchange, entry_ofFn, hplace]

theorem ofLower_entry {a : Dense ℝ n n} (ha : a.toMatrix.IsSymm) : ofLower a.entry = a :=
  ext_entry fun i j => congrFun₂ (toMatrix_ofLower (entry_symm ha)) i j

theorem exchange_isSymm {a : Dense ℝ n n} (ha : a.toMatrix.IsSymm) (p q : Fin n) :
    (a.exchange p q).toMatrix.IsSymm := by
  rw [toMatrix_exchange]
  exact ha.submatrix _

/-- A solution of the exchanged system is, exchanged back, one of the system itself. -/
theorem mulVec_exchange {a : Dense ℝ n n} {p q : Fin n} {z v : Vector ℝ n}
    (h : (a.exchange p q).toMatrix *ᵥ z.get = (Vec.exchange v p q).get) :
    a.toMatrix *ᵥ (Vec.exchange z p q).get = v.get := by
  rw [toMatrix_exchange, Matrix.submatrix_mulVec_equiv, Equiv.symm_swap, Vec.get_exchange] at h
  rw [Vec.get_exchange]
  exact (Equiv.swap p q).surjective.injective_comp_right h

end Dense

namespace Factor

theorem columnPeak_eq {a : Dense ℝ (n + 1) (n + 1)} {i : Fin n} {w : ℝ} (h : columnPeak a = some (i, w)) :
    w = |a.entry i.succ 0| := by
  revert i w
  rw [columnPeak]
  refine List.foldlRecOn
    (motive := fun best : Option (Fin n × ℝ) => ∀ {i w}, best = some (i, w) → w = |a.entry i.succ 0|) _ _ ?_ ?_
  · intro i w h
    cases h
  · intro best hb k _ i w hw
    cases best with
    | none =>
        cases hw
        rfl
    | some b =>
        obtain ⟨j, u⟩ := b
        simp only [Scalar.abs_real] at hw
        split_ifs at hw with hu
        · cases hw
          rfl
        · exact hb hw

/-- A block is taken only where the column has an entry other than zero below the diagonal. -/
theorem choosePivot_double {a : Dense ℝ (n + 1) (n + 1)} {p : Fin n} (h : choosePivot a = .double p) :
    a.entry p.succ 0 ≠ 0 := by
  rw [choosePivot] at h
  cases hp : columnPeak a with
  | none => simp [hp] at h
  | some b =>
      obtain ⟨i, w⟩ := b
      have hw := columnPeak_eq hp
      simp only [hp, Scalar.unordered_real, Bool.or_false, decide_eq_true_eq] at h
      split_ifs at h with h1 h2 h3
      cases h
      intro hz
      rw [hz, abs_zero] at hw
      apply h1
      rw [hw, mul_zero]
      exact abs_nonneg _

theorem blockSolve_spec {a b c : ℝ} (hb : b ≠ 0) (hd : a * c - b * b ≠ 0) (x y : ℝ) :
    a * (blockSolve a b c x y).1 + b * (blockSolve a b c x y).2 = x ∧
      b * (blockSolve a b c x y).1 + c * (blockSolve a b c x y).2 = y := by
  have ht : 1 / (c / b * (a / b) - 1) / b = b / (a * c - b * b) := by
    have he : c / b * (a / b) - 1 = (a * c - b * b) / (b * b) := by field_simp
    rw [he]
    field_simp
  simp only [blockSolve, ht]
  constructor
  · have he : a * (b / (a * c - b * b) * (c / b * x - y)) + b * (b / (a * c - b * b) * (a / b * y - x)) =
        (a * c - b * b) * x / (a * c - b * b) := by field_simp; ring
    rw [he, mul_div_cancel_left₀ _ hd]
  · have he : b * (b / (a * c - b * b) * (c / b * x - y)) + c * (b / (a * c - b * b) * (a / b * y - x)) =
        (a * c - b * b) * y / (a * c - b * b) := by field_simp; ring
    rw [he, mul_div_cancel_left₀ _ hd]

theorem sum_of_multiples {f l : Fin n → ℝ} {s : ℝ} (h : ∀ j, s * l j = f j) (x : Fin n → ℝ) :
    ∑ j, f j * x j = s * ∑ j, l j * x j := by
  rw [Finset.mul_sum]
  apply Finset.sum_congr rfl
  intro j _
  rw [← h, mul_assoc]

theorem sum_of_combinations {f l m : Fin n → ℝ} {s t : ℝ} (h : ∀ j, s * l j + t * m j = f j) (x : Fin n → ℝ) :
    ∑ j, f j * x j = s * ∑ j, l j * x j + t * ∑ j, m j * x j := by
  rw [Finset.mul_sum, Finset.mul_sum, ← Finset.sum_add_distrib]
  apply Finset.sum_congr rfl
  intro j _
  rw [← h]
  ring

theorem toMatrix_eliminateSingle {e : Dense ℝ (n + 1) (n + 1)} (he : e.toMatrix.IsSymm) {l : Vector ℝ n}
    (hl : ∀ i, l.get i = e.entry i.succ 0 / e.entry 0 0) : (eliminateSingle e l).toMatrix =
      Matrix.of fun i j : Fin n => e.entry i.succ j.succ - l.get i * e.entry j.succ 0 := by
  apply Dense.toMatrix_ofLower
  intro i j
  rw [hl, hl, Dense.entry_symm he i.succ j.succ]
  ring

theorem toMatrix_eliminateDouble {e : Dense ℝ (n + 2) (n + 2)} (he : e.toMatrix.IsSymm) {a b c : ℝ} {l m : Vector ℝ n}
    (hl : ∀ i, a * l.get i + b * m.get i = e.entry i.succ.succ 0)
    (hm : ∀ i, b * l.get i + c * m.get i = e.entry i.succ.succ 1) : (eliminateDouble e l m).toMatrix =
      Matrix.of fun i j : Fin n =>
        e.entry i.succ.succ j.succ.succ - (l.get i * e.entry j.succ.succ 0 + m.get i * e.entry j.succ.succ 1) := by
  apply Dense.toMatrix_ofLower
  intro i j
  rw [← hl, ← hm, ← hl, ← hm, Dense.entry_symm he i.succ.succ j.succ.succ]
  ring

theorem single_solves {e : Dense ℝ (n + 1) (n + 1)} (he : e.toMatrix.IsSymm) (hd : e.entry 0 0 ≠ 0)
    {l x : Vector ℝ n} (hl : ∀ i, l.get i = e.entry i.succ 0 / e.entry 0 0) {u : Vector ℝ (n + 1)}
    (hx : (eliminateSingle e l).toMatrix *ᵥ x.get = (Vec.tail u - Vec.scale (u.get 0) l).get) :
    e.toMatrix *ᵥ (Vec.cons (u.get 0 / e.entry 0 0 - Vec.dot l x) x).get = u.get := by
  rw [toMatrix_eliminateSingle he hl] at hx
  funext i
  simp only [Matrix.mulVec, dotProduct, Fin.sum_univ_succ, Vec.get_cons_zero, Vec.get_cons_succ,
    Dense.toMatrix_apply, Vec.dot_real]
  cases i using Fin.cases with
  | zero =>
      have hc : ∑ j, e.entry 0 (Fin.succ j) * x.get j = e.entry 0 0 * ∑ j, l.get j * x.get j := by
        apply sum_of_multiples
        intro j
        rw [hl, Dense.entry_symm he 0 j.succ]
        field_simp
      rw [hc]
      field_simp
      ring
  | succ i =>
      have hi := congrFun hx i
      simp only [Matrix.mulVec, dotProduct, Matrix.of_apply, Vec.get_sub, Vec.get_scale_eq, Pi.sub_apply,
        Pi.smul_apply, Vec.get_tail, smul_eq_mul, sub_mul, Finset.sum_sub_distrib] at hi
      have hc : ∑ j, l.get i * e.entry (Fin.succ j) 0 * x.get j = e.entry i.succ 0 * ∑ j, l.get j * x.get j := by
        apply sum_of_multiples
        intro j
        rw [hl, hl]
        ring
      have hu : e.entry i.succ 0 * (u.get 0 / e.entry 0 0) = u.get 0 * l.get i := by
        rw [hl]
        ring
      rw [mul_sub, hu]
      linarith

theorem double_solves {e : Dense ℝ (n + 2) (n + 2)} (he : e.toMatrix.IsSymm) {a b c : ℝ}
    (ha : e.entry 0 0 = a) (hb : e.entry 1 0 = b) (hc : e.entry 1 1 = c)
    {l m x : Vector ℝ n} (hl : ∀ i, a * l.get i + b * m.get i = e.entry i.succ.succ 0)
    (hm : ∀ i, b * l.get i + c * m.get i = e.entry i.succ.succ 1) {u : Vector ℝ (n + 2)} {y z : ℝ}
    (hy : a * y + b * z = u.get 0) (hz : b * y + c * z = u.get 1)
    (hx : (eliminateDouble e l m).toMatrix *ᵥ x.get =
      (Vec.tail (Vec.tail u) - (Vec.scale (u.get 0) l + Vec.scale (u.get 1) m)).get) :
    e.toMatrix *ᵥ (Vec.cons (y - Vec.dot l x) (Vec.cons (z - Vec.dot m x) x)).get = u.get := by
  rw [toMatrix_eliminateDouble he hl hm] at hx
  have hbt : e.entry 0 1 = b := by rw [Dense.entry_symm he 0 1, hb]
  funext i
  simp only [Matrix.mulVec, dotProduct, Fin.sum_univ_succ, Vec.get_cons_zero, Vec.get_cons_succ,
    Dense.toMatrix_apply, Vec.dot_real, Fin.succ_zero_eq_one]
  cases i using Fin.cases with
  | zero =>
      have hrow (j : Fin n) : a * l.get j + b * m.get j = e.entry 0 j.succ.succ := by rw [hl, Dense.entry_symm he 0]
      rw [sum_of_combinations hrow, ha, hbt, ← hy]
      ring
  | succ i =>
      cases i using Fin.cases with
      | zero =>
          have hrow (j : Fin n) : b * l.get j + c * m.get j = e.entry 1 j.succ.succ := by rw [hm, Dense.entry_symm he 1]
          rw [Fin.succ_zero_eq_one, sum_of_combinations hrow, hb, hc, ← hz]
          ring
      | succ i =>
          have hi := congrFun hx i
          simp only [Matrix.mulVec, dotProduct, Matrix.of_apply, Vec.get_sub, Vec.get_add, Vec.get_scale_eq,
            Pi.sub_apply, Pi.add_apply, Pi.smul_apply, Vec.get_tail, smul_eq_mul, sub_mul,
            Finset.sum_sub_distrib] at hi
          have hrow (j : Fin n) : e.entry i.succ.succ 0 * l.get j + e.entry i.succ.succ 1 * m.get j =
              l.get i * e.entry j.succ.succ 0 + m.get i * e.entry j.succ.succ 1 := by
            rw [← hl, ← hm, ← hl, ← hm]
            ring
          rw [sum_of_combinations hrow] at hi
          have hu : e.entry i.succ.succ 0 * y + e.entry i.succ.succ 1 * z = u.get 0 * l.get i + u.get 1 * m.get i := by
            rw [← hl, ← hm, ← hy, ← hz]
            ring
          linarith

theorem eliminateSingle_isSymm {e : Dense ℝ (n + 1) (n + 1)} {l : Vector ℝ n} :
    (eliminateSingle e l).toMatrix.IsSymm := Dense.ofLower_isSymm _

theorem eliminateDouble_isSymm {e : Dense ℝ (n + 2) (n + 2)} {l m : Vector ℝ n} :
    (eliminateDouble e l m).toMatrix.IsSymm := Dense.ofLower_isSymm _

theorem solve_single (p : Fin (n + 1)) (d : ℝ) (l : Vector ℝ n) (rest : Factor ℝ n) (v : Vector ℝ (n + 1)) :
    (Factor.single p d l rest).solve v =
      let u := Vec.exchange v 0 p
      let x := rest.solve (Vec.tail u - Vec.scale (u.get 0) l)
      Vec.exchange (Vec.cons (u.get 0 / d - Vec.dot l x) x) 0 p := by
  simp only [solve, forward, backward, Vec.tail_cons, Vec.get_cons_zero]

theorem solve_double (p : Fin (n + 1)) (a b c : ℝ) (l m : Vector ℝ n) (rest : Factor ℝ n) (v : Vector ℝ (n + 2)) :
    (Factor.double p a b c l m rest).solve v =
      let u := Vec.exchange v 1 p.succ
      let top := blockSolve a b c (u.get 0) (u.get 1)
      let x := rest.solve (Vec.tail (Vec.tail u) - (Vec.scale (u.get 0) l + Vec.scale (u.get 1) m))
      Vec.exchange (Vec.cons (top.1 - Vec.dot l x) (Vec.cons (top.2 - Vec.dot m x) x)) 1 p.succ := by
  simp only [solve, forward, backward, Vec.tail_cons, Vec.get_cons_zero, Vec.get_cons_one]

/-- How a factor takes a matrix apart: the multipliers are the column over the pivot, and the rest of the factor takes
apart what the pivot leaves. -/
inductive Eliminates : {n : Nat} → Dense ℝ n n → Factor ℝ n → Prop
  | nil (a : Dense ℝ 0 0) : Eliminates a .nil
  | single {n : Nat} {a : Dense ℝ (n + 1) (n + 1)} {p : Fin (n + 1)} {d : ℝ} {l : Vector ℝ n} {rest : Factor ℝ n}
      (hd : (a.exchange 0 p).entry 0 0 = d) (hd0 : d ≠ 0) (hl : ∀ i, l.get i = (a.exchange 0 p).entry i.succ 0 / d)
      (hrest : Eliminates (eliminateSingle (a.exchange 0 p) l) rest) : Eliminates a (.single p d l rest)
  | double {n : Nat} {a : Dense ℝ (n + 2) (n + 2)} {p : Fin (n + 1)} {x y z : ℝ} {l m : Vector ℝ n}
      {rest : Factor ℝ n} (hx : (a.exchange 1 p.succ).entry 0 0 = x) (hy : (a.exchange 1 p.succ).entry 1 0 = y)
      (hz : (a.exchange 1 p.succ).entry 1 1 = z) (hy0 : y ≠ 0) (hdet : x * z - y * y ≠ 0)
      (hl : ∀ i, x * l.get i + y * m.get i = (a.exchange 1 p.succ).entry i.succ.succ 0)
      (hm : ∀ i, y * l.get i + z * m.get i = (a.exchange 1 p.succ).entry i.succ.succ 1)
      (hrest : Eliminates (eliminateDouble (a.exchange 1 p.succ) l m) rest) : Eliminates a (.double p x y z l m rest)

theorem ne_zero_of_pivot {d t : ℝ} (ht : 0 ≤ t) (hd : ¬Scalar.abs d ≤ t) : d ≠ 0 := by
  rintro rfl
  exact hd (by simpa using ht)

theorem factorize_eliminates {tol : ℝ} (htol : 0 ≤ tol) {a : Dense ℝ n n} {f : Factor ℝ n}
    (h : factorize tol a = .ok f) : Eliminates a f := by
  induction a using factorize.induct tol with
  | case1 a =>
      rw [factorize] at h
      cases h
      exact .nil a
  | case2 a d =>
      rename_i hd
      rw [factorize, if_pos hd] at h
      cases h
  | case3 a d =>
      rename_i hd
      rw [factorize, if_neg hd] at h
      cases h
      exact .single (by rw [Dense.exchange_self]) (ne_zero_of_pivot htol hd) (fun i => i.elim0) (.nil _)
  | case4 n p a hp e d =>
      rename_i hd
      simp only [factorize, hp] at h
      rw [if_pos hd] at h
      cases h
  | case5 n p a hp e d =>
      rename_i hd l ih
      simp only [factorize, hp] at h
      rw [if_neg hd] at h
      obtain ⟨rest, hrest, rfl⟩ := map_eq_ok h
      exact .single rfl (ne_zero_of_pivot htol hd) (fun i => Vec.get_ofFn _ i) (ih hrest)
  | case6 n p a hp e x y z =>
      rename_i hd
      simp only [factorize, hp] at h
      rw [if_pos hd] at h
      cases h
  | case7 n p a hp e x y z =>
      rename_i hd rows l m ih
      simp only [factorize, hp] at h
      rw [if_neg hd] at h
      obtain ⟨rest, hrest, rfl⟩ := map_eq_ok h
      have hy : y ≠ 0 := by
        have hne : (0 : Fin (n + 2)) ≠ p.succ := (Fin.succ_ne_zero p).symm
        simpa [y, e, Dense.exchange, hne] using choosePivot_double hp
      have hdet := ne_zero_of_pivot (mul_nonneg htol htol) hd
      have hrow (i : Fin n) : (l.get i, m.get i) = blockSolve x y z (e.entry i.succ.succ 0) (e.entry i.succ.succ 1) := by
        simp [l, m, rows]
      have block (i : Fin n) := blockSolve_spec hy hdet (e.entry i.succ.succ 0) (e.entry i.succ.succ 1)
      simp only [← hrow] at block
      exact .double rfl rfl rfl hy hdet (fun i => (block i).1) (fun i => (block i).2) (ih hrest)

/-- What counts as singular in a matrix. -/
noncomputable def tolerance (a : Dense ℝ n n) : ℝ := Scalar.epsilon * max a.maxAbs 1 * n

theorem tolerance_nonneg (a : Dense ℝ n n) : 0 ≤ tolerance a :=
  mul_nonneg (mul_nonneg Scalar.epsilon_pos.le (zero_le_one.trans (le_max_right _ _))) n.cast_nonneg

theorem ofMatrix_eq {a : Dense ℝ n n} (ha : a.toMatrix.IsSymm) : ofMatrix a = factorize (tolerance a) a := by
  rw [ofMatrix, if_pos (by simp), Dense.ofLower_entry ha, Scalar.greatest_real, Scalar.ofInt_real, Int.cast_natCast,
    tolerance]

theorem ofMatrix_eliminates {a : Dense ℝ n n} (ha : a.toMatrix.IsSymm) {f : Factor ℝ n} (h : ofMatrix a = .ok f) :
    Eliminates a f := by
  rw [ofMatrix_eq ha] at h
  exact factorize_eliminates (tolerance_nonneg a) h

/-- A factor solves every system with the symmetric matrix that it takes apart. -/
theorem Eliminates.solve {a : Dense ℝ n n} {f : Factor ℝ n} (h : Eliminates a f) (ha : a.toMatrix.IsSymm)
    (v : Vector ℝ n) : a.toMatrix *ᵥ (f.solve v).get = v.get := by
  induction h with
  | nil a => exact funext fun i => i.elim0
  | @single n a p d l rest hd hd0 hl _ ih =>
      rw [solve_single]
      apply Dense.mulVec_exchange
      subst hd
      exact single_solves (Dense.exchange_isSymm ha 0 p) hd0 hl (ih eliminateSingle_isSymm _)
  | @double n a p x y z l m rest hx hy hz hy0 hdet hl hm _ ih =>
      obtain ⟨htop, hbottom⟩ :=
        blockSolve_spec hy0 hdet ((Vec.exchange v 1 p.succ).get 0) ((Vec.exchange v 1 p.succ).get 1)
      rw [solve_double]
      apply Dense.mulVec_exchange
      exact double_solves (Dense.exchange_isSymm ha 1 p.succ) hx hy hz hl hm htop hbottom (ih eliminateDouble_isSymm _)

theorem ofMatrix_solve {a : Dense ℝ n n} (ha : a.toMatrix.IsSymm) {f : Factor ℝ n} (h : ofMatrix a = .ok f)
    (v : Vector ℝ n) : a.toMatrix *ᵥ (f.solve v).get = v.get := (ofMatrix_eliminates ha h).solve ha v

theorem columnPeak_pair (a : Dense ℝ 2 2) : columnPeak a = some (0, |a.entry 1 0|) := by
  simp [columnPeak, List.finRange_succ]

theorem ratio_le_one : (ratio : ℝ) ≤ 1 := by
  have hroot : Real.sqrt 17.0 ≤ 7 := by
    rw [Real.sqrt_le_left (by norm_num)]
    norm_num
  rw [ratio, Scalar.sqrt_real, div_le_one (by norm_num)]
  norm_num at hroot ⊢
  linarith

/-- A first diagonal entry that is large enough beside its column is the pivot. -/
theorem choosePivot_single {a : Dense ℝ (n + 1) (n + 1)} (h : ∀ i : Fin n, ratio * |a.entry i.succ 0| ≤ |a.entry 0 0|) :
    choosePivot a = .single 0 := by
  rw [choosePivot]
  cases hp : columnPeak a with
  | none => rfl
  | some b =>
      obtain ⟨i, w⟩ := b
      have hi := h i
      rw [← columnPeak_eq hp] at hi
      exact if_pos (by simpa using hi)

/-- With such a pivot a matrix has a factor if what the pivot leaves has one. -/
theorem exists_factorize {tol : ℝ} {a : Dense ℝ (n + 2) (n + 2)}
    (hp : ∀ i : Fin (n + 1), ratio * |a.entry i.succ 0| ≤ |a.entry 0 0|) (h0 : tol < |a.entry 0 0|)
    (hrest : ∃ f, factorize tol (eliminateSingle a (.ofFn fun i => a.entry i.succ 0 / a.entry 0 0)) = .ok f) :
    ∃ f, factorize tol a = .ok f := by
  obtain ⟨f, hf⟩ := hrest
  simp only [factorize, choosePivot_single hp, Dense.exchange_self, Scalar.abs_real, if_neg (not_le.mpr h0), hf]
  exact ⟨_, rfl⟩

theorem eliminateSingle_entry {a : Dense ℝ (n + 1) (n + 1)} {l : Vector ℝ n} {i j : Fin n} (h : j ≤ i) :
    (eliminateSingle a l).entry i j = a.entry i.succ j.succ - l.get i * a.entry j.succ 0 := by
  simp [eliminateSingle, Dense.ofLower, h]

theorem exists_factorize_diagonal {tol : ℝ} {a : Dense ℝ n n} (hzero : ∀ i j, j < i → a.entry i j = 0)
    (hdiagonal : ∀ i, tol < |a.entry i i|) : ∃ f, factorize tol a = .ok f := by
  induction n with
  | zero => exact ⟨.nil, rfl⟩
  | succ n ih =>
      cases n with
      | zero => exact ⟨_, if_neg (not_le.mpr (hdiagonal 0))⟩
      | succ n =>
          have hcolumn (i : Fin (n + 1)) : a.entry i.succ 0 = 0 := hzero _ _ i.succ_pos
          apply exists_factorize
          · intro i
            rw [hcolumn, abs_zero, mul_zero]
            exact abs_nonneg _
          · exact hdiagonal 0
          · -- Nothing is taken off the rows that are left.
            have hleft {i j : Fin (n + 1)} (h : j ≤ i) : (eliminateSingle a (.ofFn fun i => a.entry i.succ 0 /
                a.entry 0 0)).entry i j = a.entry i.succ j.succ := by
              rw [eliminateSingle_entry h, hcolumn, mul_zero, sub_zero]
            apply ih
            · intro i j h
              rw [hleft h.le]
              exact hzero _ _ (Fin.succ_lt_succ_iff.mpr h)
            · intro i
              rw [hleft le_rfl]
              exact hdiagonal _

/-- Two rows are factored without an exchange where the first diagonal entry is large enough. -/
theorem ofMatrix_pair {a : Dense ℝ 2 2} (ha : a.toMatrix.IsSymm) (hp : ratio * |a.entry 1 0| ≤ |a.entry 0 0|)
    (h0 : tolerance a < |a.entry 0 0|)
    (h1 : tolerance a < |a.entry 1 1 - a.entry 1 0 / a.entry 0 0 * a.entry 1 0|) : ∃ f, ofMatrix a = .ok f := by
  rw [ofMatrix_eq ha]
  apply exists_factorize
  · intro i
    rw [Fin.fin_one_eq_zero i]
    exact hp
  · exact h0
  · apply exists_factorize_diagonal
    · intro i j h
      omega
    · intro i
      rw [Fin.fin_one_eq_zero i, eliminateSingle_entry le_rfl, Vec.get_ofFn]
      exact h1

theorem ofMatrix_diagonal {a c : ℝ} (hfirst : Scalar.epsilon * max (max |a| |c|) 1 * 2 < |a|)
    (hlast : Scalar.epsilon * max (max |a| |c|) 1 * 2 < |c|) :
    ∃ f, ofMatrix (⟨#v[#v[-a, 0], #v[0, c]]⟩ : Dense ℝ 2 2) = .ok f := by
  have hmax : (⟨#v[#v[-a, 0], #v[0, c]]⟩ : Dense ℝ 2 2).maxAbs = max |a| |c| := by
    simp [Dense.maxAbs, Vec.maxAbs, Vector.foldl]
  rw [ofMatrix_eq, tolerance, hmax]
  · apply exists_factorize_diagonal
    · intro i j h
      fin_cases i <;> fin_cases j <;> simp_all [Dense.entry, Vec.get_eq_getElem]
    · intro i
      fin_cases i
      · simpa [Dense.entry, Vec.get_eq_getElem] using hfirst
      · simpa [Dense.entry, Vec.get_eq_getElem] using hlast
  · apply Matrix.IsSymm.ext
    intro i j
    fin_cases i <;> fin_cases j <;> rfl

/-- Over the reals nothing becomes infinite on the way to a solution. -/
theorem solve?_real (f : Factor ℝ n) (v : Vector ℝ n) : f.solve? v = some (f.solve v) := by
  simp [solve?, solve]

end Factor

end BoxBfgs
