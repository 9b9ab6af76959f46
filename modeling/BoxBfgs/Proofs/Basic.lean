import Mathlib
import BoxBfgs.Dense

namespace BoxBfgs

open Matrix

/-- The real numbers, which all statements over exact arithmetic are about. -/
noncomputable instance Scalar.ofReals : Scalar ℝ where
  toZero := inferInstance
  toOne := inferInstance
  toAdd := inferInstance
  toSub := inferInstance
  toMul := inferInstance
  toDiv := inferInstance
  toNeg := inferInstance
  toLT := inferInstance
  toLE := inferInstance
  toBEq := instBEqOfDecidableEq
  toOfScientific := inferInstance
  decLt := inferInstance
  decLe := inferInstance
  abs a := |a|
  sqrt := Real.sqrt
  isFinite _ := true
  negative a := decide (a < 0)
  ofInt i := i

namespace Scalar

@[simp] theorem abs_real (a : ℝ) : Scalar.abs a = |a| := rfl

@[simp] theorem sqrt_real (a : ℝ) : Scalar.sqrt a = Real.sqrt a := rfl

@[simp] theorem isFinite_real (a : ℝ) : Scalar.isFinite a = true := rfl

@[simp] theorem negative_real (a : ℝ) : Scalar.negative a = decide (a < 0) := rfl

@[simp] theorem ofInt_real (i : Int) : (Scalar.ofInt i : ℝ) = i := rfl

@[simp] theorem unordered_real (a : ℝ) : unordered a = false := by simp [unordered]

@[simp] theorem least_real (a b : ℝ) : least a b = min a b := by
  rw [least]
  split_ifs with h
  · exact (min_eq_right h.le).symm
  · exact (min_eq_left (not_lt.mp h)).symm

@[simp] theorem greatest_real (a b : ℝ) : greatest a b = max a b := by
  rw [greatest]
  split_ifs with h
  · exact (max_eq_right h.le).symm
  · exact (max_eq_left (not_lt.mp h)).symm

@[simp] theorem minimum_real (a b : ℝ) : minimum a b = min a b := by
  rw [minimum]
  by_cases h : a ≤ b
  · simp [h]
  · simp [h, min_eq_right (not_le.mp h).le]

@[simp] theorem maximum_real (a b : ℝ) : maximum a b = max a b := by
  rw [maximum]
  by_cases h : b ≤ a
  · simp [h]
  · simp [h, max_eq_right (not_le.mp h).le]

theorem epsilon_pos : (0 : ℝ) < epsilon := by
  rw [epsilon]
  norm_num

theorem epsilon_lt : (epsilon : ℝ) < 1 / 100 := by
  rw [epsilon]
  norm_num

end Scalar

namespace Vec

variable {n : Nat}

theorem ext_get {β : Type} {x y : Vector β n} (h : x.get = y.get) : x = y :=
  Vector.ext fun i hi => congrFun h ⟨i, hi⟩

theorem get_ofFn_eq {β : Type} (f : Fin n → β) : (Vector.ofFn f).get = f := by
  funext i
  simp

theorem ofList?_toList {β : Type} (v : Vector β n) : ofList? n v.toList = some v := by
  rw [ofList?, dif_pos Vector.length_toList]
  rfl

@[simp] theorem get_add (x y : Vector ℝ n) : (x + y).get = x.get + y.get := by
  funext i
  exact Vector.getElem_add x y i i.isLt

@[simp] theorem get_sub (x y : Vector ℝ n) : (x - y).get = x.get - y.get := by
  funext i
  exact Vector.getElem_sub x y i i.isLt

@[simp] theorem get_neg (x : Vector ℝ n) : (-x).get = -x.get := by
  funext i
  exact Vector.getElem_neg x i i.isLt

@[simp] theorem get_replicate {β : Type} (a : β) (i : Fin n) : (Vector.replicate n a).get i = a := by
  simp [get_eq_getElem]

@[simp] theorem get_put {β : Type} (v : Vector β n) (i : Fin n) (a : β) :
    (put v i a).get = Function.update v.get i a := by
  funext j
  by_cases h : j = i
  · subst h; simp [put, get_eq_getElem]
  · have hne : (i : Nat) ≠ j := fun e => h (Fin.ext e.symm)
    simp [put, get_eq_getElem, h, hne]

theorem get_scale_eq (a : ℝ) (x : Vector ℝ n) : (scale a x).get = a • x.get := by
  funext i
  simp

theorem get_divide_eq (x : Vector ℝ n) (a : ℝ) : (divide x a).get = a⁻¹ • x.get := by
  funext i
  simp [div_eq_inv_mul]

theorem sum_ofFn (f : Fin n → ℝ) : (Vector.ofFn f).sum = ∑ i, f i := by
  rw [← Vector.sum_toList, Vector.toList_ofFn]
  exact List.sum_ofFn

theorem zipWith_ofFn {β γ δ : Type} (f : β → γ → δ) (x : Vector β n) (y : Vector γ n) :
    Vector.zipWith f x y = .ofFn fun i => f (x.get i) (y.get i) := by
  ext i hi
  simp [get_eq_getElem]

@[simp] theorem dot_real (x y : Vector ℝ n) : dot x y = x.get ⬝ᵥ y.get := by
  rw [dot]
  rw [zipWith_ofFn, sum_ofFn]
  rfl

@[simp] theorem isFinite_real (x : Vector ℝ n) : isFinite x = true := by
  simp [isFinite]

theorem anyNonzero_iff (x : Vector ℝ n) : anyNonzero x = true ↔ x.get ≠ 0 := by
  simp only [anyNonzero, Vector.any_eq_true, bne_iff_ne, ne_eq, funext_iff, not_forall]
  exact ⟨fun ⟨i, hi, h⟩ => ⟨⟨i, hi⟩, h⟩, fun ⟨i, h⟩ => ⟨i, i.isLt, h⟩⟩

theorem foldl_maximum_le {t a : ℝ} {l : List ℝ} :
    l.foldl (fun m b => Scalar.maximum m (Scalar.abs b)) a ≤ t ↔ a ≤ t ∧ ∀ b ∈ l, |b| ≤ t := by
  induction l generalizing a with
  | nil => simp
  | cons b l ih =>
      rw [List.foldl_cons, ih]
      simp [and_assoc]

theorem maxAbs_le {x : Vector ℝ n} {t : ℝ} : maxAbs x ≤ t ↔ 0 ≤ t ∧ ∀ i, |x.get i| ≤ t := by
  rw [maxAbs, ← Vector.foldl_toList, foldl_maximum_le]
  refine and_congr_right fun _ => ⟨fun h i => h _ ?_, fun h b hb => ?_⟩
  · rw [get_eq_getElem]
    simp
  · obtain ⟨i, hi, rfl⟩ := List.getElem_of_mem hb
    simpa [get_eq_getElem] using h ⟨i, by simpa using hi⟩

theorem maxAbs_neg (x : Vector ℝ n) : maxAbs (-x) = maxAbs x := by
  refine eq_of_forall_ge_iff fun t => ?_
  simp [maxAbs_le]

theorem ne_zero_of_lt_maxAbs {x : Vector ℝ n} {t : ℝ} (ht : 0 ≤ t) (h : t < maxAbs x) : x.get ≠ 0 := by
  intro h0
  refine absurd (maxAbs_le.mpr ⟨ht, fun i => ?_⟩) h.not_ge
  rw [h0, Pi.zero_apply, abs_zero]
  exact ht

end Vec

namespace Dense

variable {r c : Nat}

theorem ext_entry {a b : Dense ℝ r c} (h : ∀ i j, a.entry i j = b.entry i j) : a = b := by
  have hrows : a.rows = b.rows := Vec.ext_get (funext fun i => Vec.ext_get (funext fun j => h i j))
  exact congrArg Dense.mk hrows

def toMatrix (a : Dense ℝ r c) : Matrix (Fin r) (Fin c) ℝ := Matrix.of a.entry

@[simp] theorem toMatrix_apply (a : Dense ℝ r c) (i : Fin r) (j : Fin c) : a.toMatrix i j = a.entry i j := rfl

@[simp] theorem get_mulVec (a : Dense ℝ r c) (v : Vector ℝ c) : (a.mulVec v).get = a.toMatrix *ᵥ v.get := by
  funext i
  simp only [mulVec, Vec.get_map, Vec.dot_real]
  rfl

@[simp] theorem isFinite_real (a : Dense ℝ r c) : a.isFinite = true := by simp [isFinite]

end Dense

theorem map_eq_ok {ε β γ : Type} {r : Except ε β} {f : β → γ} {c : γ} (h : r.map f = .ok c) :
    ∃ b, r = .ok b ∧ f b = c := by
  cases r with
  | error e => cases h
  | ok b =>
      cases h
      exact ⟨b, rfl, rfl⟩

theorem bind_eq_ok {ε β γ : Type} {r : Except ε β} {f : β → Except ε γ} {c : γ} (h : r.bind f = .ok c) :
    ∃ b, r = .ok b ∧ f b = .ok c := by
  cases r with
  | error e => cases h
  | ok b => exact ⟨b, rfl, h⟩

theorem eq_ok_of_toOption {ε β : Type} {r : Except ε β} {b : β} (h : r.toOption = some b) : r = .ok b := by
  cases r with
  | error e => cases h
  | ok c => exact congrArg Except.ok (Option.some.inj h)

theorem map_ne_error {ε β γ : Type} {r : Except ε β} {f : β → γ} {e : ε} (hr : r ≠ .error e) : r.map f ≠ .error e := by
  cases r with
  | error e' => exact fun h => hr (by cases h; rfl)
  | ok b => nofun

theorem bind_ne_error {ε β γ : Type} {r : Except ε β} {f : β → Except ε γ} {e : ε} (hr : r ≠ .error e)
    (hf : ∀ b, f b ≠ .error e) : r.bind f ≠ .error e := by
  cases r with
  | error e' => exact fun h => hr (by cases h; rfl)
  | ok b => exact hf b

theorem exists_bind_ok {ε β γ : Type} {r : Except ε β} {a : β} {f : β → Except ε γ} {P : γ → Prop}
    (hr : r = .ok a) (hf : ∃ c, f a = .ok c ∧ P c) : ∃ c, (r >>= f) = .ok c ∧ P c := by
  subst hr
  exact hf

end BoxBfgs
