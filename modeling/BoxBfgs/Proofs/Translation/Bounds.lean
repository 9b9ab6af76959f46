import BoxBfgs.Proofs.Translation.Box

namespace BoxBfgs

namespace Bounds

open Limit

variable {n : Nat} {b : Bounds ℝ n}

/-- Bounds whose limits are finite exactly on the sides that their kinds name, and are not crossed. -/
structure Normal (b : Bounds ℝ n) : Prop where
  lower : ∀ i, (b.lower.get i).isFinite = (b.kinds.get i).hasLower
  upper : ∀ i, (b.upper.get i).isFinite = (b.kinds.get i).hasUpper
  proper : b.toBox.Proper
  ordered : ∀ i, (b.upper.get i).less (b.lower.get i) = false

theorem Built.normal (h : b.Built) : b.Normal := by
  have hproper := h.proper
  cases h with
  | free =>
      have hkind (i : Fin n) : (Bounds.free n : Bounds ℝ n).kinds.get i = .free := Vec.get_replicate _ _
      have hlower (i : Fin n) : (Bounds.free n : Bounds ℝ n).lower.get i = .negInf := Vec.get_replicate _ _
      have hupper (i : Fin n) : (Bounds.free n : Bounds ℝ n).upper.get i = .posInf := Vec.get_replicate _ _
      exact ⟨fun i => by rw [hkind, hlower]; rfl, fun i => by rw [hkind, hupper]; rfl, hproper,
        fun i => by rw [hlower, hupper]; rfl⟩
  | arrays h =>
      obtain ⟨lo, hi, -, -, hs, -, hmake⟩ := ofSides_eq_ok.mp (fromArrays_eq_ok h)
      obtain ⟨-, -, hcross⟩ := make_eq_ok.mp hmake
      exact ⟨fun i => (settle_sides hs i).1, fun i => (settle_sides hs i).2, hproper, hcross⟩

theorem Normal.relaxed_eq (h : b.Normal) : relaxed b.kinds b.lower b.upper = b.toBox := by
  have hlower : (relaxed b.kinds b.lower b.upper).lower = b.lower := by
    refine Vec.ext_get (funext fun i => ?_)
    rw [get_lower_relaxed, ← h.lower i]
    have hproper := (h.proper i).1
    cases hl : b.lower.get i with
    | negInf => rfl
    | fin a => simp
    | posInf => exact absurd hl hproper
  have hupper : (relaxed b.kinds b.lower b.upper).upper = b.upper := by
    refine Vec.ext_get (funext fun i => ?_)
    rw [get_upper_relaxed, ← h.upper i]
    have hproper := (h.proper i).2
    cases hu : b.upper.get i with
    | negInf => exact absurd hu hproper
    | fin a => simp
    | posInf => rfl
  exact congrArg₂ Box.mk hlower hupper

theorem Normal.make_eq (h : b.Normal) : make b.toBox b.kinds = .ok b :=
  make_eq_ok.mpr ⟨rfl, fun _ => ⟨unordered_eq _, unordered_eq _⟩, h.ordered⟩

/-- Such bounds are what their own limits and kinds make up. -/
theorem Normal.built (h : b.Normal) : b.Built := by
  have hkinds : (b.kinds.map Tag.kind : Vector Tag n).mapM Tag.resolve = (.ok b.kinds : Except (Fault ℝ) _) := by
    rw [Vector.mapM_map]
    exact (Vector.mapM_pure id).trans (congrArg Except.ok (Vector.map_id b.kinds))
  have hactive : activeFinite b.kinds b.lower b.upper = true :=
    activeFinite_iff.mpr fun i => ⟨fun hk => (h.lower i).trans hk, fun hk => (h.upper i).trans hk⟩
  have hsettle : settle b.lower b.upper (.each true (b.kinds.map Tag.kind).toList) = .ok (b.toBox, b.kinds) := by
    simp only [settle, resolveAll, Vec.ofList?_toList, hkinds, Except.bind, hactive, h.relaxed_eq, if_true]
  have hsides : ofSides n (.each n b.lower.toList) (.each n b.upper.toList)
      (.each true (b.kinds.map Tag.kind).toList) = .ok b := by
    have hresolve (name : String) (fill : Limit ℝ) (v : Vector (Limit ℝ) n) :
        (Side.each n v.toList).resolve name fill n = .ok v := by rw [Side.resolve, Vec.ofList?_toList]
    exact ofSides_eq_ok.mpr ⟨_, _, hresolve _ _ _, hresolve _ _ _, hsettle, h.proper, h.make_eq⟩
  have hdimension : dimension (.each n b.lower.toList) (.each n b.upper.toList)
      (.each true (b.kinds.map Tag.kind).toList) = (.ok n : Except (Fault ℝ) Nat) := by
    simp [dimension, Tags.rows?, Except.bind]
  have harrays : fromArrays (.each n b.lower.toList) (.each n b.upper.toList)
      (.each true (b.kinds.map Tag.kind).toList) none = .ok ⟨n, b⟩ := by
    simp only [fromArrays, hdimension, Except.bind, hsides, Except.map]
  exact .arrays harrays

variable (a : Vector ℝ n)

theorem Normal.shift (h : b.Normal) : (b.shift a).Normal where
  lower i := by
    rw [toBox_shift, Box.get_lower_shift, Limit.isFinite, Limit.finite?_shift, Option.isSome_map]
    exact h.lower i
  upper i := by
    rw [toBox_shift, Box.get_upper_shift, Limit.isFinite, Limit.finite?_shift, Option.isSome_map]
    exact h.upper i
  proper i := by
    rw [toBox_shift, Box.get_lower_shift, Box.get_upper_shift, ne_eq, shift_eq_posInf, ne_eq, shift_eq_negInf]
    exact h.proper i
  ordered i := by
    rw [toBox_shift, Box.get_lower_shift, Box.get_upper_shift, less_shift]
    exact h.ordered i

/-- Limits and kinds make up the moved bounds as well. -/
theorem Built.shift (h : b.Built) : (b.shift a).Built := (h.normal.shift a).built

end Bounds

end BoxBfgs
