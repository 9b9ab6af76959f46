import BoxBfgs.Proofs.Bounds.WellFormed

namespace BoxBfgs

theorem Vec.exists_get_of_mem {β : Type} {n : Nat} {v : Vector β n} {a : β} (h : a ∈ v.toList) : ∃ i, v.get i = a := by
  obtain ⟨i, hi, rfl⟩ := List.getElem_of_mem h
  exact ⟨⟨i, hi.trans_eq Vector.length_toList⟩, rfl⟩

namespace Tensor

variable {n : Nat} {v : Value} {items : List Value} {t : Tensor Value}

theorem sharedLength?_flat (h : ∀ v ∈ items, length? v = none) : sharedLength? items = none := by
  cases items with
  | nil => rfl
  | cons v rest =>
      rw [sharedLength?]
      split
      · exact h v (List.mem_cons_self ..)
      · rfl

theorem peel_flat (h : ∀ v ∈ items, length? v = none) : ∀ fuel, peel fuel items = ([], items)
  | 0 => rfl
  | fuel + 1 => by rw [peel, sharedLength?_flat h]

theorem peel_list (items : List Value) (fuel : Nat) :
    peel (fuel + 1) [.list items] = (items.length :: (peel fuel items).1, (peel fuel items).2) := by
  simp [peel, sharedLength?, length?, Value.items]

theorem layout_flat (h : ∀ v ∈ items, length? v = none) : layout (.list items) = .ok ⟨[items.length], items⟩ := by
  have hpeel : peel maxRank [.list items] = ([items.length], items) := by
    rw [maxRank, peel_list, peel_flat h]
  have hany : items.any (fun w => (length? w).isSome) = false := by
    rw [List.any_eq_false]
    intro v hv
    rw [h v hv]
    exact Bool.false_ne_true
  simp [layout, hpeel, hany]

theorem shape_layout (h : layout (.list items) = .ok t) : ∃ inner, t.shape = items.length :: inner := by
  rw [layout, maxRank, peel_list] at h
  dsimp only at h
  split at h
  · cases h
  · cases h
    exact ⟨_, rfl⟩

theorem shape_layout_single (hv : length? v = none) (h : layout v = .ok t) : t.shape = [] := by
  have hflat : ∀ w ∈ [v], length? w = none := fun w hw => by rwa [List.mem_singleton.mp hw]
  rw [layout, peel_flat hflat] at h
  dsimp only at h
  split at h
  · cases h
  · cases h
    rfl

/-- An array of one dimension, of which each entry is read as a number. -/
def Lists (v : Value) (x : Vector Float n) : Prop := read v = .ok (ofVector x)

def row (x : Vector Float n) : Value := .list (x.toList.map .real)

theorem row_lists (x : Vector Float n) : Lists (row x) x := by
  have hflat : ∀ w ∈ x.toList.map Value.real, length? w = none := by
    intro w hw
    obtain ⟨a, -, rfl⟩ := List.mem_map.mp hw
    rfl
  have hentries : (x.toList.map Value.real).mapM entry = .ok x.toList :=
    mapM_eq_ok.mpr (List.forall₂_map_left_iff.mpr (List.forall₂_same.mpr fun a _ => rfl))
  rw [Lists, row, read, readWith, layout_flat hflat]
  simp only [Except.bind, hentries]
  simp [ofVector, Except.map]

end Tensor

namespace Limit

open Float.Model

variable {l : Limit Float} {a c : Float}

/-- The limit that a double is read as. -/
inductive Reads (a : Float) : Limit Float → Prop
  | fin (h : a.isFinite = true ∨ a.isNaN = true) : Reads a (.fin a)
  | negInf (h : Double.parts a = .infinity .negative) : Reads a .negInf
  | posInf (h : Double.parts a = .infinity .positive) : Reads a .posInf

theorem reads_ofScalar (a : Float) : Reads a (ofScalar a) := by
  rw [ofScalar, Double.unordered_eq]
  split
  · rename_i h
    exact .fin ((Bool.or_eq_true _ _).mp h)
  · rename_i h
    obtain ⟨hfinite, hn⟩ := Bool.or_eq_false_iff.mp (Bool.eq_false_of_not_eq_true h)
    obtain ⟨sign, hs⟩ := Double.exists_infinity hfinite hn
    have hlt : a < 0 ↔ (Float.Model.UnpackedFloat.infinity sign).compare (Double.parts 0.0) = some .lt :=
      hs ▸ Double.lt_iff
    rw [Double.parts_zero] at hlt
    split
    · rename_i h
      cases sign with
      | negative => exact .negInf hs
      | positive => cases hlt.mp h
    · rename_i h
      cases sign with
      | negative => exact absurd (hlt.mpr rfl) h
      | positive => exact .posInf hs

/-- How an infinity lies to a number, and to what is no number. -/
theorem beyond {sign : UnpackedFloat.Sign} (hc : c.isFinite = true ∨ c.isNaN = true)
    (ha : Double.parts a = .infinity sign) : (c < a ↔ c.isNaN = false ∧ sign = .positive) ∧
      (a < c ↔ c.isNaN = false ∧ sign = .negative) ∧ ¬(c == a) = true := by
  rw [Double.isFinite_eq, Double.isNaN_eq] at hc
  rw [Double.lt_iff, Double.lt_iff, Double.beq_iff, Double.isNaN_eq, ha]
  cases hp : Double.parts c with
  | notANumber => cases sign <;> exact ⟨⟨nofun, nofun⟩, ⟨nofun, nofun⟩, nofun⟩
  | infinity s => simp [hp, UnpackedFloat.isFinite, UnpackedFloat.isNaN] at hc
  | zero s | finite s =>
      cases s <;> cases sign <;> simp [UnpackedFloat.compare, UnpackedFloat.isNaN]

theorem less_ofScalar (c a : Float) : (ofScalar c).less (ofScalar a) = true ↔ c < a := by
  have hc := reads_ofScalar c
  have ha := reads_ofScalar a
  generalize ofScalar c = l at hc
  generalize ofScalar a = u at ha
  cases hc with
  | fin hc =>
      cases ha with
      | fin ha => exact decide_eq_true_iff
      | negInf ha => simp [less, (beyond hc ha).1]
      | posInf ha => simp only [less, (beyond hc ha).1, Double.unordered_eq, Bool.not_eq_true', and_true]
  | negInf hc =>
      cases ha with
      | fin ha => simp only [less, unordered, (beyond ha hc).2.1, Double.unordered_eq, Bool.not_eq_true', and_true]
      | negInf ha | posInf ha =>
          rw [Double.lt_iff, hc, ha]
          decide
  | posInf hc =>
      cases ha with
      | fin ha => simp [less, (beyond ha hc).2.1]
      | negInf ha | posInf ha =>
          rw [Double.lt_iff, hc, ha]
          decide

theorem unordered_ofScalar (a : Float) : (ofScalar a).unordered = a.isNaN := by
  have ha := reads_ofScalar a
  generalize ofScalar a = l at ha
  cases ha with
  | fin ha => exact Double.unordered_eq a
  | negInf ha | posInf ha => rw [Double.isNaN_eq, ha]; rfl

theorem ofScalar_eq_posInf : ofScalar a = .posInf ↔ (a == posInf.value) = true := by
  have ha := reads_ofScalar a
  generalize ofScalar a = l at ha
  cases ha with
  | fin ha => exact iff_of_false nofun (beyond ha Double.parts_posInf).2.2
  | negInf ha | posInf ha =>
      rw [Double.beq_iff, Double.parts_posInf, ha]
      decide

theorem ofScalar_eq_negInf : ofScalar a = .negInf ↔ (a == negInf.value) = true := by
  have ha := reads_ofScalar a
  generalize ofScalar a = l at ha
  cases ha with
  | fin ha => exact iff_of_false nofun (beyond ha Double.parts_negInf).2.2
  | negInf ha | posInf ha =>
      rw [Double.beq_iff, Double.parts_negInf, ha]
      decide

theorem settled_of_isFinite (h : l.isFinite = true) : l.Settled := by
  cases l with
  | fin a =>
      rw [isFinite, finite?] at h
      split at h
      · rename_i ha
        exact .inl ha
      · cases h
  | negInf | posInf => trivial

theorem ofScalar_value (hl : l.Settled) : ofScalar l.value = l := by
  cases l with
  | negInf => decide +kernel
  | fin a => exact if_pos ((Bool.or_eq_true _ _).mpr hl)
  | posInf => decide +kernel

end Limit

namespace Bounds

variable {n : Nat}

theorem Side.ofValue_lists {v : Value} {x : Vector Float n} (h : Tensor.Lists v x) :
    Side.ofValue v = .each n (x.toList.map Limit.ofScalar) := by
  obtain ⟨t, ht, h⟩ := bind_eq_ok h
  obtain ⟨entries, he, hx⟩ := map_eq_ok h
  obtain ⟨hshape, hentries⟩ := Tensor.mk.inj hx
  cases hv : Tensor.length? v with
  | none =>
      rw [Tensor.shape_layout_single hv ht] at hshape
      cases hshape
  | some k =>
      cases v with
      | list items =>
          obtain ⟨inner, hinner⟩ := Tensor.shape_layout ht
          rw [hinner] at hshape
          cases hshape
          subst hentries
          simp only [ofValue, ht, he]
      | null | flag | whole | real | text | table | bounds => cases hv

@[simp] theorem Side.resolve_each {α : Type} [Scalar α] {name : String} {fill : Limit α} {k : Nat}
    (v : Vector (Limit α) n) : (each k v.toList).resolve name fill n = .ok v := by
  rw [resolve, Vec.ofList?_toList]

/-- No dimension is given, or the right one. -/
def Spans (dimension : Value) (n : Nat) : Prop := dimension = .null ∨ dimension.isWhole n = true ∧ n < Fault.maxRoom

theorem checkRoom_eq_ok (h : n < Fault.maxRoom) : (Fault.checkRoom n : Except (Fault Float) Unit) = .ok () := by
  have hrooms : Fault.maxRoom < Fault.maxEntries := by decide
  have hentries : ((n : Int) < 0 || (Fault.maxEntries : Int) ≤ n) = false := by
    rw [Bool.or_eq_false_iff]
    exact ⟨decide_eq_false (by omega), decide_eq_false (by omega)⟩
  rw [Fault.checkRoom, hentries]
  exact (if_neg Bool.false_ne_true).trans (if_neg (by omega))

theorem read_lists {v w dimension : Value} {x y : Vector Float n} (hv : Tensor.Lists v x) (hw : Tensor.Lists w y)
    (hd : Spans dimension n) : read v w .null dimension =
      (ofSides n (.each n (x.toList.map Limit.ofScalar)) (.each n (y.toList.map Limit.ofScalar)) .absent).map
        (Sigma.mk n) := by
  rcases hd with rfl | ⟨hwhole, hroom⟩
  · rw [read, Side.ofValue_lists hv, Side.ofValue_lists hw]
    rfl
  · have hspread (name : String) (fill : Limit Float) (z : Vector Float n) :
        (Side.each n (z.toList.map Limit.ofScalar)).spread name fill dimension =
          .ok ([n], z.toList.map Limit.ofScalar) := by
      rw [Side.spread, List.length_map, Vector.length_toList, if_pos hwhole]
    have hfitted : fitted (.ofValue v) (.ofValue w) (.ofValue .null) dimension =
        (ofSides n (.each n (x.toList.map Limit.ofScalar)) (.each n (y.toList.map Limit.ofScalar)) .absent).map
          (Sigma.mk n) := by
      rw [Side.ofValue_lists hv, Side.ofValue_lists hw, fitted, hspread, Except.bind, hspread]
      exact if_pos rfl
    cases dimension with
    | null | text | list | table | bounds => cases hwhole
    | whole i =>
        have hi : i = n := eq_of_beq hwhole
        subst hi
        rw [read, Side.ofValue_lists hv, Side.ofValue_lists hw]
        simp only [fromArrays, checkRoom_eq_ok hroom]
        rfl
    | flag | real => exact hfitted

/-! Limits where no tags are given. -/

theorem make_error {c : Box Float n} {kinds : Vector Kind n} {why : Fault Float} (h : make c kinds = .error why) :
    ∃ defect, why = .invalid (.bounds defect) := by
  rw [make] at h
  split at h
  · exact ⟨_, (Except.error.inj h).symm⟩
  · split at h
    · exact ⟨_, (Except.error.inj h).symm⟩
    · cases h

theorem ofSides_inferred_error {k k' : Nat} {lo hi : Vector (Limit Float) n} {why : Fault Float}
    (h : ofSides n (.each k lo.toList) (.each k' hi.toList) .absent = .error why) :
    ∃ defect, why = .invalid (.bounds defect) := by
  simp only [ofSides, Side.resolve_each, settle, Except.bind] at h
  split at h
  · exact ⟨_, (Except.error.inj h).symm⟩
  · exact make_error h

theorem ofSides_inferred_eq_ok {k k' : Nat} {lo hi : Vector (Limit Float) n} :
    (∃ b, ofSides n (.each k lo.toList) (.each k' hi.toList) .absent = .ok b) ↔
      (∀ i, lo.get i ≠ .posInf ∧ hi.get i ≠ .negInf) ∧
        (∀ i, (lo.get i).unordered = false ∧ (hi.get i).unordered = false) ∧
          ∀ i, (hi.get i).less (lo.get i) = false := by
  constructor
  · rintro ⟨b, h⟩
    obtain ⟨lo', hi', hlo, hhi, hs, hproper, hmake⟩ := ofSides_eq_ok.mp h
    rw [Side.resolve_each] at hlo hhi
    cases hlo
    cases hhi
    obtain ⟨hbox, -⟩ := Prod.mk.inj (Except.ok.inj hs)
    obtain ⟨-, hordered, hcross⟩ := make_eq_ok.mp hmake
    rw [← hbox] at hordered hcross
    rw [← congrArg Box.lower hbox, ← congrArg Box.upper hbox] at hproper
    exact ⟨hproper, hordered, hcross⟩
  · rintro ⟨hproper, hordered, hcross⟩
    exact ⟨{ lower := lo, upper := hi, kinds := lo.zipWith Kind.ofLimits hi }, ofSides_eq_ok.mpr
      ⟨lo, hi, Side.resolve_each _, Side.resolve_each _, rfl, hproper, make_eq_ok.mpr ⟨rfl, hordered, hcross⟩⟩⟩

/-- Two numbers between which nothing lies, or of which one is no number. -/
def Apart (a c : Float) : Prop :=
  a.isNaN = true ∨ c.isNaN = true ∨ c < a ∨ (a == Limit.posInf.value) = true ∨ (c == Limit.negInf.value) = true

theorem not_apart_iff {a c : Float} : ¬Apart a c ↔
    (Limit.ofScalar a ≠ .posInf ∧ Limit.ofScalar c ≠ .negInf) ∧
      ((Limit.ofScalar a).unordered = false ∧ (Limit.ofScalar c).unordered = false) ∧
        (Limit.ofScalar c).less (Limit.ofScalar a) = false := by
  rw [Apart, ← Limit.ofScalar_eq_posInf, ← Limit.ofScalar_eq_negInf, ← Limit.less_ofScalar, ← Limit.unordered_ofScalar,
    ← Limit.unordered_ofScalar]
  simp only [not_or, Bool.not_eq_true]
  tauto

theorem ofSides_lists {k k' : Nat} {x y : Vector Float n} :
    (∃ b, ofSides n (.each k (x.toList.map Limit.ofScalar)) (.each k' (y.toList.map Limit.ofScalar)) .absent = .ok b) ↔
      ∀ i, ¬Apart (x.get i) (y.get i) := by
  rw [← Vector.toList_map, ← Vector.toList_map, ofSides_inferred_eq_ok, ← forall_and, ← forall_and]
  simp only [not_apart_iff, Vec.get_map]

end Bounds

end BoxBfgs
