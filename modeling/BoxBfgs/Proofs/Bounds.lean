import BoxBfgs.Proofs.Box
import BoxBfgs.Bounds.Making

namespace BoxBfgs

namespace Limit

variable {l u : Limit ℝ}

@[simp] theorem isFinite_fin (a : ℝ) : (fin a).isFinite = true := by simp [isFinite]

@[simp] theorem isFinite_negInf : (negInf : Limit ℝ).isFinite = false := rfl

@[simp] theorem isFinite_posInf : (posInf : Limit ℝ).isFinite = false := rfl

/-- Limits that are not crossed have a number between them, unless one is infinite on the wrong side. -/
theorem exists_between (hl : l ≠ .posInf) (hu : u ≠ .negInf) (h : u.less l = false) : ∃ a, Between l u a := by
  cases l with
  | posInf => exact absurd rfl hl
  | negInf =>
      cases u with
      | negInf => exact absurd rfl hu
      | fin c => exact ⟨c, by simp [Between]⟩
      | posInf => exact ⟨0, by simp [Between]⟩
  | fin b =>
      cases u with
      | negInf => exact absurd rfl hu
      | fin c => exact ⟨c, by simpa [Between, less] using h⟩
      | posInf => exact ⟨b, by simp [Between]⟩

end Limit

namespace Bounds

open Limit

section

variable {α : Type} {n : Nat} {b : Bounds α n} {lo hi : Vector (Limit α) n} {kinds : Vector Kind n}

theorem any_eq_false {P : Limit α → Bool} {v : Vector (Limit α) n} : v.any P = false ↔ ∀ i, P (v.get i) = false := by
  simp only [← Bool.not_eq_true, Vector.any_eq_true, not_exists, Vec.get_eq_getElem]
  exact ⟨fun h i => h i i.isLt, fun h i hi => h ⟨i, hi⟩⟩

theorem nonempty_iff {c : Box α n} : (c.lower.any (· matches .posInf) || c.upper.any (· matches .negInf)) = false ↔
    ∀ i, c.lower.get i ≠ .posInf ∧ c.upper.get i ≠ .negInf := by
  have hpos (l : Limit α) : (l matches .posInf) = false ↔ l ≠ .posInf := by
    cases l <;> simp
  have hneg (l : Limit α) : (l matches .negInf) = false ↔ l ≠ .negInf := by
    cases l <;> simp
  rw [Bool.or_eq_false_iff, any_eq_false, any_eq_false, forall_and]
  exact and_congr (forall_congr' fun i => hpos _) (forall_congr' fun i => hneg _)

theorem get_lower_relaxed (kinds : Vector Kind n) (lo hi : Vector (Limit α) n) (i : Fin n) :
    (relaxed kinds lo hi).lower.get i = if (kinds.get i).hasLower then lo.get i else .negInf := by
  simp only [relaxed, Vec.zipWith_ofFn, Vec.get_ofFn_eq]

theorem get_upper_relaxed (kinds : Vector Kind n) (lo hi : Vector (Limit α) n) (i : Fin n) :
    (relaxed kinds lo hi).upper.get i = if (kinds.get i).hasUpper then hi.get i else .posInf := by
  simp only [relaxed, Vec.zipWith_ofFn, Vec.get_ofFn_eq]

variable [Scalar α]

theorem ofLimits_sides (l u : Limit α) :
    l.isFinite = (Kind.ofLimits l u).hasLower ∧ u.isFinite = (Kind.ofLimits l u).hasUpper := by
  rw [Kind.ofLimits]
  cases l.isFinite <;> cases u.isFinite <;> exact ⟨rfl, rfl⟩

theorem activeFinite_iff : activeFinite kinds lo hi = true ↔
    ∀ i, ((kinds.get i).hasLower = true → (lo.get i).isFinite = true) ∧
      ((kinds.get i).hasUpper = true → (hi.get i).isFinite = true) := by
  simp [activeFinite, ← Bool.not_eq_true, or_iff_not_imp_left]

theorem settle_sides {tags : Tags} {c : Box α n} (h : settle lo hi tags = .ok (c, kinds)) (i : Fin n) :
    (c.lower.get i).isFinite = (kinds.get i).hasLower ∧ (c.upper.get i).isFinite = (kinds.get i).hasUpper := by
  cases tags with
  | absent =>
      cases h
      rw [Vec.zipWith_ofFn, Vec.get_ofFn_eq]
      exact ofLimits_sides _ _
  | single => cases h
  | spelled l | each even l =>
      obtain ⟨k, -, h⟩ := bind_eq_ok h
      split_ifs at h with hactive
      · cases h
        obtain ⟨hl, hu⟩ := activeFinite_iff.mp hactive i
        rw [get_lower_relaxed, get_upper_relaxed]
        constructor
        · split
          · rename_i hk
            exact (hl hk).trans hk.symm
          · rename_i hk
            exact (Bool.eq_false_of_not_eq_true hk).symm
        · split
          · rename_i hk
            exact (hu hk).trans hk.symm
          · rename_i hk
            exact (Bool.eq_false_of_not_eq_true hk).symm
      · cases h

theorem make_eq_ok {c : Box α n} : make c kinds = .ok b ↔ b = { c with kinds } ∧
    (∀ i, (c.lower.get i).unordered = false ∧ (c.upper.get i).unordered = false) ∧
      ∀ i, (c.upper.get i).less (c.lower.get i) = false := by
  have hcross : ((List.finRange n).find? fun i => (c.upper.get i).less (c.lower.get i)) = none ↔
      ∀ i, (c.upper.get i).less (c.lower.get i) = false := by
    simp [List.find?_eq_none, List.mem_finRange]
  have hordered : (c.lower.any Limit.unordered || c.upper.any Limit.unordered) = false ↔
      ∀ i, (c.lower.get i).unordered = false ∧ (c.upper.get i).unordered = false := by
    rw [Bool.or_eq_false_iff, any_eq_false, any_eq_false, forall_and]
  rw [make, ← hcross, ← hordered]
  cases c.lower.any Limit.unordered || c.upper.any Limit.unordered with
  | true => exact ⟨fun h => (nomatch h), fun h => (nomatch h.2.1)⟩
  | false =>
      cases ((List.finRange n).find? fun i => (c.upper.get i).less (c.lower.get i)) with
      | some i => exact ⟨fun h => (nomatch h), fun h => (nomatch h.2.2)⟩
      | none => exact ⟨fun h => ⟨(Except.ok.inj h).symm, rfl, rfl⟩, fun h => congrArg Except.ok h.1.symm⟩

/-- What it takes for two sides and tags to make up bounds. -/
theorem ofSides_eq_ok {lower upper : Side α} {tags : Tags} : ofSides n lower upper tags = .ok b ↔ ∃ lo hi,
    lower.resolve "lower" .negInf n = .ok lo ∧ upper.resolve "upper" .posInf n = .ok hi ∧
      settle lo hi tags = .ok (b.toBox, b.kinds) ∧ (∀ i, b.lower.get i ≠ .posInf ∧ b.upper.get i ≠ .negInf) ∧
      make b.toBox b.kinds = .ok b := by
  constructor
  · intro h
    obtain ⟨lo, hlo, h⟩ := bind_eq_ok h
    obtain ⟨hi, hhi, h⟩ := bind_eq_ok h
    obtain ⟨⟨c, kinds⟩, hs, h⟩ := bind_eq_ok h
    dsimp only at h
    split_ifs at h with hany
    · cases h
    · obtain ⟨rfl, -⟩ := make_eq_ok.mp h
      exact ⟨lo, hi, hlo, hhi, hs, nonempty_iff.mp (Bool.eq_false_of_not_eq_true hany), h⟩
  · rintro ⟨lo, hi, hlo, hhi, hs, hproper, hmake⟩
    have hnonempty := nonempty_iff.mpr hproper
    simp only [ofSides, hlo, hhi, hs, Except.bind, hmake]
    exact if_neg (Bool.not_eq_true _ ▸ hnonempty)

theorem fromArrays_eq_ok {lower upper : Side α} {tags : Tags} {dimension? : Option Int}
    (h : fromArrays lower upper tags dimension? = .ok ⟨n, b⟩) : ofSides n lower upper tags = .ok b := by
  simp only [fromArrays] at h
  split at h
  · split at h
    · obtain ⟨c, hc, he⟩ := map_eq_ok h
      cases he
      exact hc
    · cases h
  · obtain ⟨k, -, h⟩ := bind_eq_ok h
    obtain ⟨c, hc, he⟩ := map_eq_ok h
    cases he
    exact hc

end

variable {n : Nat} {b : Bounds ℝ n} {x : Vector ℝ n}

/-- Bounds without limits, or those that limits and tags make up. -/
inductive Built : {n : Nat} → Bounds ℝ n → Prop
  | free (n : Nat) : Built (free n)
  | arrays {n : Nat} {b : Bounds ℝ n} {lower upper : Side ℝ} {tags : Tags} {dimension? : Option Int}
      (h : fromArrays lower upper tags dimension? = .ok ⟨n, b⟩) : Built b

/-- The limits of one coordinate leave a number between them, and there are none where the kind is free. -/
structure Fits (k : Kind) (l u : Limit ℝ) : Prop where
  between : ∃ a, Between l u a
  free : k = .free → l = .negInf ∧ u = .posInf

theorem ofSides_fits {lower upper : Side ℝ} {tags : Tags} (h : ofSides n lower upper tags = .ok b) (i : Fin n) :
    Fits (b.kinds.get i) (b.lower.get i) (b.upper.get i) := by
  obtain ⟨lo, hi, -, -, hs, hproper, hmake⟩ := ofSides_eq_ok.mp h
  obtain ⟨-, -, hcross⟩ := make_eq_ok.mp hmake
  obtain ⟨hl, hu⟩ := hproper i
  refine ⟨exists_between hl hu (hcross i), fun hk => ?_⟩
  obtain ⟨hfl, hfu⟩ := settle_sides hs i
  rw [hk] at hfl hfu
  refine ⟨?_, ?_⟩
  · cases hc : b.lower.get i with
    | negInf => rfl
    | fin a => simp [hc, Kind.hasLower] at hfl
    | posInf => exact absurd hc hl
  · cases hc : b.upper.get i with
    | negInf => exact absurd hc hu
    | fin a => simp [hc, Kind.hasUpper] at hfu
    | posInf => rfl

theorem free_inside (x : Vector ℝ n) : (Bounds.free n).Inside x := by
  intro i
  simp [Bounds.free, Between]

theorem project_free (x : Vector ℝ n) : (Bounds.free n).project x = x := Box.project_of_inside (free_inside x)

namespace Built

variable (h : b.Built)

include h

theorem fits (i : Fin n) : Fits (b.kinds.get i) (b.lower.get i) (b.upper.get i) := by
  cases h with
  | free => exact ⟨⟨0, by simp [Bounds.free, Between]⟩, fun _ => by simp [Bounds.free]⟩
  | arrays h => exact ofSides_fits (fromArrays_eq_ok h) i

theorem project_inside (x : Vector ℝ n) : b.Inside (b.project x) := by
  choose a ha using fun i => (h.fits i).between
  have hin : b.Inside (.ofFn a) := fun i => by
    rw [Vec.get_ofFn_eq]
    exact ha i
  exact Box.project_inside hin x

/-- Where no kind counts, every point is inside. -/
theorem inside_of_unconstrained (hu : b.unconstrained = true) (x : Vector ℝ n) : b.Inside x := by
  intro i
  have hk : b.kinds.get i = .free := by
    have := Vector.all_eq_true.mp hu i i.isLt
    simpa [← Vec.get_eq_getElem] using this
  obtain ⟨hl, hu⟩ := (h.fits i).free hk
  rw [hl, hu]
  simp [Between]

end Built

end Bounds

end BoxBfgs
