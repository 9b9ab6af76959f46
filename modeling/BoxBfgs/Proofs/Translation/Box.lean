import BoxBfgs.Proofs.Bounds
import BoxBfgs.Proofs.Path

namespace BoxBfgs

namespace Limit

variable {l u : Limit ℝ}

@[simp] theorem shift_negInf (t : ℝ) : (negInf : Limit ℝ).shift t = .negInf := by simp [shift]

@[simp] theorem shift_fin (a t : ℝ) : (fin a).shift t = .fin (a + t) := by simp [shift, ofScalar]

@[simp] theorem shift_posInf (t : ℝ) : (posInf : Limit ℝ).shift t = .posInf := by simp [shift]

@[simp] theorem atLeast_shift (l : Limit ℝ) (a t : ℝ) : (l.shift t).atLeast (a + t) = l.atLeast a := by
  cases l <;> simp [atLeast]

@[simp] theorem atMost_shift (l : Limit ℝ) (a t : ℝ) : (l.shift t).atMost (a + t) = l.atMost a := by
  cases l <;> simp [atMost]

@[simp] theorem finite?_shift (l : Limit ℝ) (t : ℝ) : (l.shift t).finite? = l.finite?.map fun a => a + t := by
  cases l <;> simp [finite?]

theorem raise_shift (hl : l ≠ .posInf) (a t : ℝ) : (l.shift t).raise (a + t) = l.raise a + t := by
  cases l with
  | negInf => simp [raise]
  | fin b => rw [shift_fin, raise_fin, raise_fin, max_add_add_right]
  | posInf => exact absurd rfl hl

theorem lower_shift (hu : u ≠ .negInf) (a t : ℝ) : (u.shift t).lower (a + t) = u.lower a + t := by
  cases u with
  | negInf => exact absurd rfl hu
  | fin b => rw [shift_fin, lower_fin, lower_fin, min_add_add_right]
  | posInf => simp [lower]

@[simp] theorem unordered_eq (l : Limit ℝ) : l.unordered = false := by
  cases l <;> simp [unordered]

theorem less_shift (l u : Limit ℝ) (t : ℝ) : (u.shift t).less (l.shift t) = u.less l := by
  cases l <;> cases u <;> simp [less]

theorem shift_eq_negInf {t : ℝ} : u.shift t = .negInf ↔ u = .negInf := by
  cases u <;> simp

theorem shift_eq_posInf {t : ℝ} : l.shift t = .posInf ↔ l = .posInf := by
  cases l <;> simp

end Limit

namespace Box

variable {n : Nat}

/-- The box moved by a vector. -/
noncomputable def shift (b : Box ℝ n) (a : Vector ℝ n) : Box ℝ n :=
  { lower := .ofFn fun i => (b.lower.get i).shift (a.get i), upper := .ofFn fun i => (b.upper.get i).shift (a.get i) }

/-- No limit excludes all numbers. -/
def Proper (b : Box ℝ n) : Prop := ∀ i, b.lower.get i ≠ .posInf ∧ b.upper.get i ≠ .negInf

variable {b : Box ℝ n} (x g d a : Vector ℝ n)

@[simp] theorem get_lower_shift (i : Fin n) : (b.shift a).lower.get i = (b.lower.get i).shift (a.get i) := by
  simp [shift]

@[simp] theorem get_upper_shift (i : Fin n) : (b.shift a).upper.get i = (b.upper.get i).shift (a.get i) := by
  simp [shift]

theorem inside_shift {x : Vector ℝ n} : (b.shift a).Inside (x + a) ↔ b.Inside x := by
  simp [Inside, Limit.Between]

theorem project_shift (hb : b.Proper) : (b.shift a).project (x + a) = b.project x + a := by
  refine Vec.ext_get (funext fun i => ?_)
  simp only [project, Vec.get_ofFn, Vec.get_add, Pi.add_apply, get_lower_shift, get_upper_shift]
  rw [Limit.raise_shift (hb i).1, Limit.lower_shift (hb i).2]

theorem projectedGradientNorm_shift (hb : b.Proper) :
    (b.shift a).projectedGradientNorm (x + a) g = b.projectedGradientNorm x g := by
  have hmoved : x + a - g = x - g + a := Vec.ext_get (by simp only [Vec.get_add, Vec.get_sub]; abel)
  have hback : b.project (x - g) + a - (x + a) = b.project (x - g) - x :=
    Vec.ext_get (by simp only [Vec.get_add, Vec.get_sub]; abel)
  rw [projectedGradientNorm, projectedGradientNorm, projectedGradient, projectedGradient, hmoved, project_shift _ _ hb,
    hback]

theorem roomAbove_shift : (b.shift a).roomAbove (x + a) d = b.roomAbove x d := by
  refine List.filterMap_congr fun i _ => ?_
  simp [Option.map_map, Function.comp_def]

theorem roomBelow_shift : (b.shift a).roomBelow (x + a) d = b.roomBelow x d := by
  refine List.filterMap_congr fun i _ => ?_
  simp [Option.map_map, Function.comp_def]

theorem maxStep_shift (cap : ℝ) : (b.shift a).maxStep (x + a) d cap = b.maxStep x d cap := by
  rw [maxStep, maxStep, roomAbove_shift, roomBelow_shift]

theorem legs_shift : (b.shift a).legs (x + a) g = b.legs x g := by
  refine Vec.ext_get (funext fun i => ?_)
  simp only [legs, Vec.get_ofFn, Vec.get_add, Pi.add_apply, get_lower_shift, get_upper_shift]
  generalize b.lower.get i = l
  generalize b.upper.get i = u
  rw [Leg.of, Leg.of]
  simp only [Limit.atMost_shift, Limit.atLeast_shift, Limit.finite?_shift]
  cases l.finite? <;> cases u.finite? <;> simp

end Box

namespace Bounds

variable {n : Nat}

noncomputable def shift (b : Bounds ℝ n) (a : Vector ℝ n) : Bounds ℝ n := { b.toBox.shift a with kinds := b.kinds }

variable (b : Bounds ℝ n) (a : Vector ℝ n)

@[simp] theorem toBox_shift : (b.shift a).toBox = b.toBox.shift a := rfl

@[simp] theorem unconstrained_shift : (b.shift a).unconstrained = b.unconstrained := rfl

@[simp] theorem boxed_shift : (b.shift a).boxed = b.boxed := rfl

@[simp] theorem shift_free : (free n).shift a = free n := by
  have hl : (Vector.ofFn fun i => ((Vector.replicate n (.negInf : Limit ℝ)).get i).shift (a.get i)) =
      .replicate n .negInf := Vec.ext_get (by funext i; simp)
  have hu : (Vector.ofFn fun i => ((Vector.replicate n (.posInf : Limit ℝ)).get i).shift (a.get i)) =
      .replicate n .posInf := Vec.ext_get (by funext i; simp)
  simp only [shift, Box.shift, free, hl, hu]

variable {b}

theorem Built.proper (h : b.Built) : b.toBox.Proper := by
  intro i
  obtain ⟨c, hl, hu⟩ := (h.fits i).between
  refine ⟨fun he => ?_, fun he => ?_⟩
  · rw [he, Limit.atLeast_posInf] at hl
    cases hl
  · rw [he, Limit.atMost_negInf] at hu
    cases hu

end Bounds

end BoxBfgs
