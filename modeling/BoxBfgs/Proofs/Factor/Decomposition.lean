import BoxBfgs.Proofs.Factor
import BoxBfgs.Checked.Factor

namespace BoxBfgs.Factor

open Matrix

variable {n : Nat}

/-- The multipliers below a diagonal of ones, their rows in the order of the factor. -/
def lower : {n : Nat} → Factor ℝ n → Matrix (Fin n) (Fin n) ℝ
  | _, .nil => 1
  | _, .single _ _ l rest => of (vecCons (vecCons 1 0) fun i => vecCons (l.get (rest.order.get i)) (rest.lower i))
  | _, .double _ _ _ _ l m rest =>
      of (vecCons (vecCons 1 0) (vecCons (vecCons 0 (vecCons 1 0)) fun i =>
        vecCons (l.get (rest.order.get i)) (vecCons (m.get (rest.order.get i)) (rest.lower i))))

/-- The pivots along the diagonal, each of them a number or a block of two rows. -/
def pivots : {n : Nat} → Factor ℝ n → Matrix (Fin n) (Fin n) ℝ
  | _, .nil => 0
  | _, .single _ d _ rest => of (vecCons (vecCons d 0) fun i => vecCons 0 (rest.pivots i))
  | _, .double _ a b c _ _ rest =>
      of (vecCons (vecCons a (vecCons b 0)) (vecCons (vecCons b (vecCons c 0)) fun i =>
        vecCons 0 (vecCons 0 (rest.pivots i))))

/-- A matrix, its rows and columns in the order of the factor, is the product of the multipliers, the pivots and the
multipliers transposed. -/
structure Splits (a : Dense ℝ n n) (f : Factor ℝ n) : Prop where
  order : Function.Bijective f.order.get
  product : a.toMatrix.submatrix f.order.get f.order.get = f.lower * f.pivots * f.lowerᵀ
  diagonal : ∀ i, f.lower i i = 1
  above : ∀ i j, i < j → f.lower i j = 0
  symm : f.pivots.IsSymm
  far : ∀ i j : Fin n, i.val + 1 < j → f.pivots i j = 0
  apart : ∀ i j k, i < j → j < k → f.pivots i j ≠ 0 → f.pivots j k = 0

theorem lower_diagonal (f : Factor ℝ n) (i : Fin n) : f.lower i i = 1 := by
  induction f with
  | nil => exact i.elim0
  | single p d l rest ih =>
      cases i using Fin.cases with
      | zero => rfl
      | succ i => exact ih i
  | double p a b c l m rest ih =>
      cases i using Fin.cases with
      | zero => rfl
      | succ i =>
          cases i using Fin.cases with
          | zero => rfl
          | succ i => exact ih i

theorem lower_above (f : Factor ℝ n) {i j : Fin n} (h : i < j) : f.lower i j = 0 := by
  induction f with
  | nil => exact i.elim0
  | single p d l rest ih =>
      obtain ⟨j, rfl⟩ := Fin.exists_succ_eq.mpr (Fin.ne_zero_of_lt h)
      cases i using Fin.cases with
      | zero => rfl
      | succ i => exact ih (Fin.succ_lt_succ_iff.mp h)
  | double p a b c l m rest ih =>
      obtain ⟨j, rfl⟩ := Fin.exists_succ_eq.mpr (Fin.ne_zero_of_lt h)
      cases i using Fin.cases with
      | zero => rfl
      | succ i =>
          have h' := Fin.succ_lt_succ_iff.mp h
          obtain ⟨j, rfl⟩ := Fin.exists_succ_eq.mpr (Fin.ne_zero_of_lt h')
          cases i using Fin.cases with
          | zero => rfl
          | succ i => exact ih (Fin.succ_lt_succ_iff.mp h')

theorem pivots_symm (f : Factor ℝ n) (i j : Fin n) : f.pivots i j = f.pivots j i := by
  induction f with
  | nil => exact i.elim0
  | single p d l rest ih =>
      cases i using Fin.cases <;> cases j using Fin.cases
      case succ.succ i j => exact ih i j
      all_goals rfl
  | double p a b c l m rest ih =>
      cases i using Fin.cases with
      | zero =>
          cases j using Fin.cases with
          | zero => rfl
          | succ j => cases j using Fin.cases <;> rfl
      | succ i =>
          cases j using Fin.cases with
          | zero => cases i using Fin.cases <;> rfl
          | succ j =>
              cases i using Fin.cases <;> cases j using Fin.cases
              case succ.succ i j => exact ih i j
              all_goals rfl

theorem pivots_far (f : Factor ℝ n) {i j : Fin n} (h : i.val + 1 < j) : f.pivots i j = 0 := by
  induction f with
  | nil => exact i.elim0
  | single p d l rest ih =>
      cases j using Fin.cases with
      | zero => exact absurd h (Nat.not_lt_zero _)
      | succ j =>
          cases i using Fin.cases with
          | zero => rfl
          | succ i => exact ih (Nat.lt_of_succ_lt_succ h)
  | double p a b c l m rest ih =>
      cases j using Fin.cases with
      | zero => exact absurd h (Nat.not_lt_zero _)
      | succ j =>
          cases j using Fin.cases with
          | zero => exact absurd (Nat.lt_of_succ_lt_succ h) (Nat.not_lt_zero _)
          | succ j =>
              cases i using Fin.cases with
              | zero => rfl
              | succ i =>
                  cases i using Fin.cases with
                  | zero => rfl
                  | succ i => exact ih (Nat.lt_of_succ_lt_succ (Nat.lt_of_succ_lt_succ h))

/-- Two blocks share no row. -/
theorem pivots_apart (f : Factor ℝ n) {i j k : Fin n} (hij : i < j) (hjk : j < k) (h : f.pivots i j ≠ 0) :
    f.pivots j k = 0 := by
  induction f with
  | nil => exact i.elim0
  | single p d l rest ih =>
      obtain ⟨j, rfl⟩ := Fin.exists_succ_eq.mpr (Fin.ne_zero_of_lt hij)
      obtain ⟨k, rfl⟩ := Fin.exists_succ_eq.mpr (Fin.ne_zero_of_lt hjk)
      cases i using Fin.cases with
      | zero => exact absurd rfl h
      | succ i => exact ih (Fin.succ_lt_succ_iff.mp hij) (Fin.succ_lt_succ_iff.mp hjk) h
  | double p a b c l m rest ih =>
      obtain ⟨j, rfl⟩ := Fin.exists_succ_eq.mpr (Fin.ne_zero_of_lt hij)
      obtain ⟨k, rfl⟩ := Fin.exists_succ_eq.mpr (Fin.ne_zero_of_lt hjk)
      have hjk' := Fin.succ_lt_succ_iff.mp hjk
      obtain ⟨k, rfl⟩ := Fin.exists_succ_eq.mpr (Fin.ne_zero_of_lt hjk')
      cases j using Fin.cases with
      | zero => rfl
      | succ j =>
          cases i using Fin.cases with
          | zero => exact absurd rfl h
          | succ i =>
              cases i using Fin.cases with
              | zero => exact absurd rfl h
              | succ i =>
                  exact ih (Fin.succ_lt_succ_iff.mp (Fin.succ_lt_succ_iff.mp hij)) (Fin.succ_lt_succ_iff.mp hjk') h

theorem order_single (p : Fin (n + 1)) (d : ℝ) (l : Vector ℝ n) (rest : Factor ℝ n) :
    (single p d l rest).order.get = Equiv.swap 0 p ∘ Fin.cons 0 (Fin.succ ∘ rest.order.get) := by
  let u : Vector (Fin (n + 1)) (n + 1) := Vec.exchange (.ofFn id) 0 p
  have horder : (single p d l rest).order = Vec.cons (u.get 0) (rest.order.map fun i => u.get i.succ) := rfl
  rw [horder]
  funext i
  cases i using Fin.cases with
  | zero => simp [u, Vec.get_exchange]
  | succ i => simp [u, Vec.get_exchange]

theorem order_double (p : Fin (n + 1)) (a b c : ℝ) (l m : Vector ℝ n) (rest : Factor ℝ n) :
    (double p a b c l m rest).order.get =
      Equiv.swap 1 p.succ ∘ Fin.cons 0 (Fin.cons 1 (Fin.succ ∘ Fin.succ ∘ rest.order.get)) := by
  let u : Vector (Fin (n + 2)) (n + 2) := Vec.exchange (.ofFn id) 1 p.succ
  have horder : (double p a b c l m rest).order =
      Vec.cons (u.get 0) (Vec.cons (u.get 1) (rest.order.map fun i => u.get i.succ.succ)) := rfl
  rw [horder]
  funext i
  cases i using Fin.cases with
  | zero => simp [u, Vec.get_exchange]
  | succ i =>
    cases i using Fin.cases with
    | zero => simp [u, Vec.get_exchange]
    | succ i => simp [u, Vec.get_exchange]

theorem order_injective (f : Factor ℝ n) : Function.Injective f.order.get := by
  induction f with
  | nil => exact fun i => i.elim0
  | single p d l rest ih =>
      rw [order_single]
      refine (Equiv.swap 0 p).injective.comp (Fin.cons_injective_iff.mpr ⟨?_, (Fin.succ_injective _).comp ih⟩)
      rintro ⟨i, hi⟩
      exact Fin.succ_ne_zero _ hi
  | double p a b c l m rest ih =>
      rw [order_double]
      refine (Equiv.swap 1 p.succ).injective.comp (Fin.cons_injective_iff.mpr ⟨?_, Fin.cons_injective_iff.mpr
        ⟨?_, (Fin.succ_injective _).comp ((Fin.succ_injective _).comp ih)⟩⟩)
      · rintro ⟨i, hi⟩
        cases i using Fin.cases with
        | zero => simp at hi
        | succ i => exact Fin.succ_ne_zero (rest.order.get i).succ hi
      · rintro ⟨i, hi⟩
        exact Fin.succ_ne_zero _ (Fin.succ_injective _ hi)

theorem Splits.of_product {a : Dense ℝ n n} {f : Factor ℝ n}
    (h : a.toMatrix.submatrix f.order.get f.order.get = f.lower * f.pivots * f.lowerᵀ) : f.Splits a where
  order := Finite.injective_iff_bijective.mp f.order_injective
  product := h
  diagonal := f.lower_diagonal
  above _ _ := f.lower_above
  symm := Matrix.IsSymm.ext fun i j => f.pivots_symm j i
  far _ _ := f.pivots_far
  apart _ _ _ := f.pivots_apart

theorem submatrix_exchange (a : Dense ℝ n n) (p q : Fin n) {k : Nat} (g : Fin k → Fin n) :
    a.toMatrix.submatrix (Equiv.swap p q ∘ g) (Equiv.swap p q ∘ g) = (a.exchange p q).toMatrix.submatrix g g := by
  rw [Dense.toMatrix_exchange, Matrix.submatrix_submatrix]

theorem product_single {e : Dense ℝ (n + 1) (n + 1)} (he : e.toMatrix.IsSymm) (p : Fin (n + 1)) {l : Vector ℝ n}
    {rest : Factor ℝ n} (hd : e.entry 0 0 ≠ 0) (hl : ∀ i, l.get i = e.entry i.succ 0 / e.entry 0 0)
    (hrest : (eliminateSingle e l).toMatrix.submatrix rest.order.get rest.order.get =
      rest.lower * rest.pivots * rest.lowerᵀ) :
    e.toMatrix.submatrix (Fin.cons 0 (Fin.succ ∘ rest.order.get)) (Fin.cons 0 (Fin.succ ∘ rest.order.get)) =
      (single p (e.entry 0 0) l rest).lower * (single p (e.entry 0 0) l rest).pivots *
        (single p (e.entry 0 0) l rest).lowerᵀ := by
  have hcolumn (i : Fin n) : e.entry i.succ 0 = l.get i * e.entry 0 0 := by rw [hl, div_mul_cancel₀ _ hd]
  have hrow (j : Fin n) : e.entry 0 j.succ = e.entry 0 0 * l.get j := by
    rw [Dense.entry_symm he, hcolumn, mul_comm]
  rw [toMatrix_eliminateSingle he hl, Matrix.mul_assoc] at hrest
  rw [Matrix.mul_assoc]
  ext i j
  simp only [lower, pivots, Matrix.mul_apply, Fin.sum_univ_succ, of_apply, transpose_apply]
  cases i using Fin.cases with
  | zero =>
      cases j using Fin.cases with
      | zero => simp
      | succ j => simpa using hrow _
  | succ i =>
      cases j using Fin.cases with
      | zero => simpa using hcolumn _
      | succ j =>
          have hij := congrFun₂ hrest i j
          simp only [submatrix_apply, of_apply, Matrix.mul_apply, transpose_apply] at hij
          simp [← hij, hcolumn]
          ring

theorem product_double {e : Dense ℝ (n + 2) (n + 2)} (he : e.toMatrix.IsSymm) (p : Fin (n + 1)) {a b c : ℝ}
    (ha : e.entry 0 0 = a) (hb : e.entry 1 0 = b) (hc : e.entry 1 1 = c) {l m : Vector ℝ n} {rest : Factor ℝ n}
    (hl : ∀ i, a * l.get i + b * m.get i = e.entry i.succ.succ 0)
    (hm : ∀ i, b * l.get i + c * m.get i = e.entry i.succ.succ 1)
    (hrest : (eliminateDouble e l m).toMatrix.submatrix rest.order.get rest.order.get =
      rest.lower * rest.pivots * rest.lowerᵀ) :
    e.toMatrix.submatrix (Fin.cons 0 (Fin.cons 1 (Fin.succ ∘ Fin.succ ∘ rest.order.get)))
        (Fin.cons 0 (Fin.cons 1 (Fin.succ ∘ Fin.succ ∘ rest.order.get))) =
      (double p a b c l m rest).lower * (double p a b c l m rest).pivots * (double p a b c l m rest).lowerᵀ := by
  have hbt : e.entry 0 1 = b := by rw [Dense.entry_symm he, hb]
  have hfirst (j : Fin n) : e.entry 0 j.succ.succ = a * l.get j + b * m.get j := by rw [Dense.entry_symm he, hl]
  have hsecond (j : Fin n) : e.entry 1 j.succ.succ = b * l.get j + c * m.get j := by rw [Dense.entry_symm he, hm]
  rw [toMatrix_eliminateDouble he hl hm, Matrix.mul_assoc] at hrest
  rw [Matrix.mul_assoc]
  ext i j
  simp only [lower, pivots, Matrix.mul_apply, Fin.sum_univ_succ, of_apply, transpose_apply]
  cases i using Fin.cases with
  | zero =>
      cases j using Fin.cases with
      | zero => simpa using ha
      | succ j =>
          cases j using Fin.cases with
          | zero => simpa using hbt
          | succ j => simpa using hfirst _
  | succ i =>
      cases i using Fin.cases with
      | zero =>
          cases j using Fin.cases with
          | zero => simpa using hb
          | succ j =>
              cases j using Fin.cases with
              | zero => simpa using hc
              | succ j => simpa using hsecond _
      | succ i =>
          cases j using Fin.cases with
          | zero => simpa [mul_comm] using (hl _).symm
          | succ j =>
              cases j using Fin.cases with
              | zero => simpa [mul_comm] using (hm _).symm
              | succ j =>
                  have hij := congrFun₂ hrest i j
                  simp only [submatrix_apply, of_apply, Matrix.mul_apply, transpose_apply] at hij
                  simp [← hij, ← hl, ← hm]
                  ring

theorem Eliminates.product {a : Dense ℝ n n} {f : Factor ℝ n} (h : Eliminates a f) (ha : a.toMatrix.IsSymm) :
    a.toMatrix.submatrix f.order.get f.order.get = f.lower * f.pivots * f.lowerᵀ := by
  induction h with
  | nil a =>
      ext i
      exact i.elim0
  | @single n a p d l rest hd hd0 hl _ ih =>
      subst hd
      rw [order_single, submatrix_exchange]
      exact product_single (Dense.exchange_isSymm ha 0 p) p hd0 hl (ih eliminateSingle_isSymm)
  | @double n a p x y z l m rest hx hy hz hy0 hdet hl hm _ ih =>
      rw [order_double, submatrix_exchange]
      exact product_double (Dense.exchange_isSymm ha 1 p.succ) p hx hy hz hl hm (ih eliminateDouble_isSymm)

end BoxBfgs.Factor
