import BoxBfgs.Proofs.Basic
import BoxBfgs.Limit

namespace BoxBfgs.Double

open Float.Model Float.Model.UnpackedFloat

/-- A double taken apart. -/
def parts (a : Float) : UnpackedFloat := a.toModel.unpack

theorem sign_compare_swap (s t : Sign) : compare t s = (compare s t).swap := by
  cases s <;> cases t <;> rfl

theorem compare_swap (u v : UnpackedFloat) : v.compare u = (u.compare v).map Ordering.swap := by
  cases u with
  | notANumber => cases v <;> rfl
  | infinity s =>
      cases v with
      | infinity t => exact congrArg some (sign_compare_swap s t)
      | notANumber => cases s <;> rfl
      | zero t => cases s <;> rfl
      | finite t m e hm => cases s <;> cases t <;> rfl
  | zero s =>
      cases v with
      | infinity t => cases t <;> rfl
      | notANumber => rfl
      | zero t => rfl
      | finite t m e hm => cases t <;> rfl
  | finite s m e hm =>
      cases v with
      | infinity t => cases t <;> cases s <;> rfl
      | notANumber => cases s <;> rfl
      | zero t => cases s <;> rfl
      | finite t k f hk =>
          have hswap : (compare f e).then (compare k m) = ((compare e f).then (compare m k)).swap := by
            have hexponents : compare f e = (compare e f).swap := Std.OrientedCmp.eq_swap
            have hmantissas : compare k m = (compare m k).swap := Std.OrientedCmp.eq_swap
            rw [Ordering.swap_then, hexponents, hmantissas]
          cases s <;> cases t
          · exact congrArg some (congrArg Ordering.swap hswap)
          · rfl
          · rfl
          · exact congrArg some hswap

theorem compare_eq_none {u v : UnpackedFloat} : u.compare v = none ↔ u.isNaN = true ∨ v.isNaN = true := by
  fun_cases UnpackedFloat.compare u v <;> simp_all [UnpackedFloat.isNaN]

variable {a b c : Float}

theorem isNaN_eq (a : Float) : a.isNaN = (parts a).isNaN := rfl

theorem isFinite_eq (a : Float) : a.isFinite = (parts a).isFinite := rfl

theorem lt_iff : a < b ↔ (parts a).compare (parts b) = some .lt := by
  show (Float.lt a b = true) ↔ _
  simp only [Float.lt, decide_eq_true_eq]
  show (Float.Model.lt _ _ = true) ↔ _
  simp [Float.Model.lt, UnpackedFloat.lt, parts]

theorem le_iff : a ≤ b ↔ ∃ o, (parts a).compare (parts b) = some o ∧ o.isLE = true := by
  show (Float.le a b = true) ↔ _
  simp only [Float.le, decide_eq_true_eq]
  show (Float.Model.le _ _ = true) ↔ _
  simp [Float.Model.le, UnpackedFloat.le, parts, Option.any_eq_true]

theorem beq_iff : (a == b) = true ↔ (parts a).compare (parts b) = some .eq := by
  show (Float.beq a b = true) ↔ _
  simp only [Float.beq]
  show (Float.Model.beq _ _ = true) ↔ _
  simp [Float.Model.beq, UnpackedFloat.beq, parts]

theorem exists_compare (ha : a.isNaN = false) (hb : b.isNaN = false) : ∃ o, (parts a).compare (parts b) = some o := by
  rw [← Option.ne_none_iff_exists', ne_eq, compare_eq_none, not_or, ← isNaN_eq, ← isNaN_eq, ha, hb]
  exact ⟨Bool.false_ne_true, Bool.false_ne_true⟩

theorem not_lt_of_isNaN (h : a.isNaN = true ∨ b.isNaN = true) : ¬a < b := by
  have hnone : (parts a).compare (parts b) = none := compare_eq_none.mpr h
  rw [lt_iff, hnone]
  nofun

theorem le_of_not_lt (ha : a.isNaN = false) (hb : b.isNaN = false) (h : ¬b < a) : a ≤ b := by
  obtain ⟨o, ho⟩ := exists_compare ha hb
  rw [lt_iff, compare_swap, ho] at h
  refine le_iff.mpr ⟨o, ho, ?_⟩
  cases o with
  | lt | eq => rfl
  | gt => exact absurd rfl h

theorem not_lt_of_le (h : a ≤ b) : ¬b < a := by
  obtain ⟨o, ho, hle⟩ := le_iff.mp h
  rw [lt_iff, compare_swap, ho]
  cases o with
  | lt | eq => nofun
  | gt => cases hle

theorem not_isNaN_of_le (h : a ≤ b) : a.isNaN = false ∧ b.isNaN = false := by
  obtain ⟨o, ho, -⟩ := le_iff.mp h
  have hnone : ¬(a.isNaN = true ∨ b.isNaN = true) := fun hnan => by
    cases ho.symm.trans (compare_eq_none.mpr hnan)
  simpa [not_or] using hnone

theorem compare_self {u : UnpackedFloat} (h : u.isNaN = false) : u.compare u = some .eq := by
  cases u with
  | notANumber => cases h
  | infinity s => cases s <;> rfl
  | zero s => rfl
  | finite s m e hm => cases s <;> simp [UnpackedFloat.compare]

theorem lt_irrefl (a : Float) : ¬a < a := by
  cases h : a.isNaN with
  | true => exact not_lt_of_isNaN (.inl h)
  | false =>
      rw [lt_iff, compare_self (u := parts a) h]
      nofun

theorem le_refl (h : a.isNaN = false) : a ≤ a := le_of_not_lt h h (lt_irrefl a)

theorem unordered_eq (a : Float) : Scalar.unordered a = a.isNaN := by
  rw [Scalar.unordered]
  cases h : a.isNaN with
  | true =>
      have hnone : (parts a).compare (parts a) = none := compare_eq_none.mpr (.inl h)
      have hne : ¬(a == a) = true := by
        rw [beq_iff, hnone]
        exact (Option.some_ne_none _).symm
      simpa using hne
  | false =>
      have heq : (a == a) = true := beq_iff.mpr (compare_self h)
      simpa using heq

/-! The infinities are the values of infinite limits. -/

theorem parts_posInf : parts Limit.posInf.value = .infinity .positive := rfl

theorem parts_negInf : parts Limit.negInf.value = .infinity .negative := rfl

theorem parts_zero : parts 0.0 = .zero .positive := rfl

theorem le_posInf (h : a.isNaN = false) : a ≤ Limit.posInf.value := by
  rw [isNaN_eq] at h
  rw [le_iff, parts_posInf]
  cases hp : parts a with
  | notANumber => simp [hp, UnpackedFloat.isNaN] at h
  | infinity s => cases s <;> exact ⟨_, rfl, rfl⟩
  | zero s | finite s => cases s <;> exact ⟨_, rfl, rfl⟩

theorem negInf_le (h : a.isNaN = false) : Limit.negInf.value ≤ a := by
  rw [isNaN_eq] at h
  rw [le_iff, parts_negInf]
  cases hp : parts a with
  | notANumber => simp [hp, UnpackedFloat.isNaN] at h
  | infinity s => cases s <;> exact ⟨_, rfl, rfl⟩
  | zero s | finite s => cases s <;> exact ⟨_, rfl, rfl⟩

theorem not_posInf_lt (a : Float) : ¬Limit.posInf.value < a := by
  cases h : a.isNaN with
  | true => exact not_lt_of_isNaN (.inr h)
  | false => exact not_lt_of_le (le_posInf h)

theorem not_lt_negInf (a : Float) : ¬a < Limit.negInf.value := by
  cases h : a.isNaN with
  | true => exact not_lt_of_isNaN (.inl h)
  | false => exact not_lt_of_le (negInf_le h)

theorem exists_infinity (h : a.isFinite = false) (hn : a.isNaN = false) : ∃ s, parts a = .infinity s := by
  rw [isFinite_eq] at h
  rw [isNaN_eq] at hn
  cases hp : parts a with
  | notANumber => simp [hp, UnpackedFloat.isNaN] at hn
  | infinity s => exact ⟨s, rfl⟩
  | zero s | finite s => simp [hp, UnpackedFloat.isFinite] at h

theorem posInf_le (h : a.isFinite = false ∧ 0.0 < a) : Limit.posInf.value ≤ a := by
  have hn : a.isNaN = false := Bool.eq_false_of_not_eq_true fun hn => not_lt_of_isNaN (.inr hn) h.2
  obtain ⟨s, hs⟩ := exists_infinity h.1 hn
  have hpos := lt_iff.mp h.2
  rw [le_iff, parts_posInf, hs]
  rw [parts_zero, hs] at hpos
  cases s with
  | positive => exact ⟨_, rfl, rfl⟩
  | negative => cases hpos

theorem le_negInf (h : a.isFinite = false ∧ a < 0.0) : a ≤ Limit.negInf.value := by
  have hn : a.isNaN = false := Bool.eq_false_of_not_eq_true fun hn => not_lt_of_isNaN (.inl hn) h.2
  obtain ⟨s, hs⟩ := exists_infinity h.1 hn
  have hneg := lt_iff.mp h.2
  rw [le_iff, parts_negInf, hs]
  rw [parts_zero, hs] at hneg
  cases s with
  | positive => cases hneg
  | negative => exact ⟨_, rfl, rfl⟩

/-- Where a number stands among the others: by its sign, then by its exponent, then by its mantissa. -/
def rank : UnpackedFloat → ℤ ×ₗ ℤ ×ₗ ℤ
  | .infinity .positive => toLex (2, toLex (0, 0))
  | .finite .positive m e _ => toLex (1, toLex (e, m))
  | .zero _ | .notANumber => toLex (0, toLex (0, 0))
  | .finite .negative m e _ => toLex (-1, toLex (-e, -m))
  | .infinity .negative => toLex (-2, toLex (0, 0))

theorem compare_eq_lt {u v : UnpackedFloat} (hu : u.isNaN = false) (hv : v.isNaN = false) :
    u.compare v = some .lt ↔ rank u < rank v := by
  have hsign : compare Sign.negative Sign.positive = .lt := rfl
  cases u with
  | notANumber => cases hu
  | infinity s | zero s | finite s =>
      cases v with
      | notANumber => cases hv
      | infinity t | zero t | finite t =>
          cases s <;> cases t <;>
            simp [UnpackedFloat.compare, rank, Prod.Lex.toLex_lt_toLex, Ordering.then_eq_lt, Ordering.then_eq_gt,
              Ordering.swap_eq_lt, compare_lt_iff_lt, compare_gt_iff_gt, hsign]

theorem lt_iff_rank (ha : a.isNaN = false) (hb : b.isNaN = false) : a < b ↔ rank (parts a) < rank (parts b) :=
  lt_iff.trans (compare_eq_lt ha hb)

theorem le_of_lt (h : a < b) : a ≤ b := le_iff.mpr ⟨.lt, lt_iff.mp h, rfl⟩

theorem lt_of_lt_of_le (h : a < b) (hbc : b ≤ c) : a < c := by
  obtain ⟨hb, hc⟩ := not_isNaN_of_le hbc
  obtain ⟨ha, -⟩ := not_isNaN_of_le (le_of_lt h)
  have hrank : rank (parts b) ≤ rank (parts c) :=
    not_lt.mp fun hlt => not_lt_of_le hbc ((lt_iff_rank hc hb).mpr hlt)
  exact (lt_iff_rank ha hc).mpr (((lt_iff_rank ha hb).mp h).trans_le hrank)

theorem isNaN_of_isFinite (h : a.isFinite = true) : a.isNaN = false := by
  rw [isFinite_eq] at h
  rw [isNaN_eq]
  cases hp : parts a with
  | notANumber => simp [hp, UnpackedFloat.isFinite] at h
  | infinity s | zero s | finite s => rfl

/-! The bits of a double: a sign, eleven of an exponent and those of a mantissa. -/

section

variable (b : BitVec 64)

theorem sign_eq_positive : Sign.ofBitVec (@unpackSign Format.binary64 b) = .positive ↔ b.toNat < 2 ^ 63 := by
  have hsign : @unpackSign Format.binary64 b = 0#1 ↔ b.toNat < 2 ^ 63 := by
    rw [← BitVec.toNat_inj]
    simp [unpackSign, BitVec.extractLsb, BitVec.extractLsb']
    have := b.isLt
    omega
  rw [← hsign, Sign.ofBitVec]
  split <;> simp_all

theorem exponent_eq (e : Nat) :
    @unpackExponent Format.binary64 b = BitVec.ofNat 11 e ↔ b.toNat / 2 ^ 52 % 2 ^ 11 = e % 2 ^ 11 := by
  rw [← BitVec.toNat_inj]
  simp [unpackExponent, BitVec.extractLsb, BitVec.extractLsb', Nat.shiftRight_eq_div_pow]

theorem mantissa_eq_zero : @unpackMantissa Format.binary64 b = 0#52 ↔ b.toNat % 2 ^ 52 = 0 := by
  rw [← BitVec.toNat_inj]
  simp [unpackMantissa, BitVec.extractLsb, BitVec.extractLsb']

end

theorem toBits_of_pos (h : 0.0 < a) : 0 < a.toBits.toNat ∧ a.toBits.toNat ≤ 0x7ff0000000000000 := by
  rw [lt_iff, parts_zero, parts, Float.Model.unpack, UnpackedFloat.unpack.eq_1] at h
  show 0 < a.toModel.toBits.toBitVec.toNat ∧ a.toModel.toBits.toBitVec.toNat ≤ _
  generalize a.toModel.toBits.toBitVec = b at h
  have hall := exponent_eq b 2047
  have hnone := exponent_eq b 0
  have hzero := mantissa_eq_zero b
  have hlt : b.toNat < 2 ^ 63 := by
    rw [← sign_eq_positive]
    cases hs : Sign.ofBitVec (@unpackSign Format.binary64 b) with
    | positive => rfl
    | negative =>
        rw [hs] at h
        split_ifs at h <;> cases h
  split_ifs at h with he hm he' hm'
  · have hexponent := hall.mp he
    have hmantissa := hzero.mp hm
    omega
  · cases h
  · cases h
  · have hexponent := mt hall.mpr he
    have hmantissa := mt hzero.mpr hm'
    omega
  · have hexponent := mt hall.mpr he
    have hexponent' := mt hnone.mpr he'
    omega

theorem le_ofBits {b : UInt64} (h : b.toNat < 0x7ff0000000000000) : 0.0 ≤ Float.ofBits b := by
  have hnat : b.toBitVec.toNat < 0x7ff0000000000000 := h
  have hexponent : @unpackExponent Format.binary64 b.toBitVec ≠ -1#11 := by
    intro he
    have hall := (exponent_eq b.toBitVec 2047).mp he
    omega
  have hsign := (sign_eq_positive b.toBitVec).mpr (by omega)
  have hparts : parts (Float.ofBits b) = UnpackedFloat.unpack Format.binary64 b.toBitVec := by
    have hpacked := pack_unpack_of_valid ⟨fun he => absurd he hexponent⟩
    exact congrArg (UnpackedFloat.unpack Format.binary64) hpacked
  rw [le_iff, parts_zero, hparts, UnpackedFloat.unpack.eq_1, if_neg hexponent, hsign]
  split_ifs <;> exact ⟨_, rfl, rfl⟩

theorem le_pred (h : 0.0 < a) : 0.0 ≤ Float.ofBits (a.toBits - 1) := by
  obtain ⟨hpos, hle⟩ := toBits_of_pos h
  refine le_ofBits ?_
  have h1 : (1 : UInt64) ≤ a.toBits := UInt64.le_iff_toNat_le.mpr hpos
  rw [UInt64.toNat_sub_of_le _ _ h1]
  show a.toBits.toNat - 1 < _
  omega

theorem isFinite_of_exponent (h : a.toBits.toNat / 2 ^ 52 % 2 ^ 11 = 2047) : a.isFinite = false := by
  have he : @unpackExponent Format.binary64 a.toModel.toBits.toBitVec = -1#11 :=
    (exponent_eq a.toModel.toBits.toBitVec 2047).mpr h
  rw [isFinite_eq, parts, Float.Model.unpack, UnpackedFloat.unpack.eq_1, if_pos he]
  split <;> rfl

end BoxBfgs.Double
