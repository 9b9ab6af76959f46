import BoxBfgs.Proofs.Bounds.Lists

namespace BoxBfgs

theorem Kind.ofLimits_eq {α : Type} [Scalar α] {l u : Limit α} {k : Kind} (hl : l.isFinite = k.hasLower)
    (hu : u.isFinite = k.hasUpper) (hk : ∀ c, k ≠ .other c) : ofLimits l u = k := by
  rw [ofLimits, hl, hu]
  cases k with
  | free | lower | both | upper => rfl
  | other c => exact absurd rfl (hk c)

/-- A limit that is finite if it counts, and `bare` otherwise. -/
theorem Limit.sided (bare : Limit Float) {l wrong : Limit Float} {counts : Bool}
    (hbare : bare.isFinite = false ∧ bare.Settled ∧ bare ≠ wrong) (hwrong : wrong.isFinite = false)
    (h : if counts then l.isFinite = true else l = bare) : l.isFinite = counts ∧ l.Settled ∧ l ≠ wrong := by
  cases counts with
  | true =>
      have hl : l.isFinite = true := h
      exact ⟨hl, settled_of_isFinite hl, fun he => Bool.false_ne_true (hwrong.symm.trans (he ▸ hl))⟩
  | false =>
      obtain rfl : l = bare := h
      exact hbare

namespace Bounds

variable {n : Nat} {b : Bounds Float n}

namespace WellFormed

variable (h : b.WellFormed)

include h

theorem lower_cases (i : Fin n) :
    (b.lower.get i).isFinite = (b.kinds.get i).hasLower ∧ (b.lower.get i).Settled ∧ b.lower.get i ≠ .posInf :=
  Limit.sided .negInf ⟨rfl, trivial, nofun⟩ rfl (h.lower i)

theorem upper_cases (i : Fin n) :
    (b.upper.get i).isFinite = (b.kinds.get i).hasUpper ∧ (b.upper.get i).Settled ∧ b.upper.get i ≠ .negInf :=
  Limit.sided .posInf ⟨rfl, trivial, nofun⟩ rfl (h.upper i)

theorem make_self : make b.toBox b.kinds = .ok b := by
  refine make_eq_ok.mpr ⟨rfl, fun i => ?_, fun i => ?_⟩
  · rw [← Limit.isNaN_value, ← Limit.isNaN_value]
    exact Double.not_isNaN_of_le (h.ordered i)
  · have hless := Limit.less_ofScalar (b.upper.get i).value (b.lower.get i).value
    rw [Limit.ofScalar_value (h.lower_cases i).2.1, Limit.ofScalar_value (h.upper_cases i).2.1] at hless
    exact Bool.eq_false_of_not_eq_true fun he => Double.not_lt_of_le (h.ordered i) (hless.mp he)

theorem inferred : b.lower.zipWith Kind.ofLimits b.upper = b.kinds := by
  rw [Vec.zipWith_ofFn]
  refine Vec.ext_get (funext fun i => ?_)
  rw [Vec.get_ofFn]
  exact Kind.ofLimits_eq (h.lower_cases i).1 (h.upper_cases i).1 (h.kind i)

theorem relaxed_self : relaxed b.kinds b.lower b.upper = b.toBox := by
  have hlower (i) : (relaxed b.kinds b.lower b.upper).lower.get i = b.lower.get i := by
    rw [get_lower_relaxed, ite_eq_left_iff]
    intro hk
    exact ((if_neg hk).mp (h.lower i)).symm
  have hupper (i) : (relaxed b.kinds b.lower b.upper).upper.get i = b.upper.get i := by
    rw [get_upper_relaxed, ite_eq_left_iff]
    intro hk
    exact ((if_neg hk).mp (h.upper i)).symm
  exact congrArg₂ Box.mk (Vec.ext_get (funext hlower)) (Vec.ext_get (funext hupper))

theorem active : activeFinite b.kinds b.lower b.upper = true :=
  activeFinite_iff.mpr fun i => ⟨(h.lower_cases i).1.trans, (h.upper_cases i).1.trans⟩

theorem ofSides_self {k k' : Nat} {tags : Tags} (hs : settle b.lower b.upper tags = .ok (b.toBox, b.kinds)) :
    ofSides n (.each k b.lower.toList) (.each k' b.upper.toList) tags = .ok b :=
  ofSides_eq_ok.mpr ⟨b.lower, b.upper, Side.resolve_each _, Side.resolve_each _, hs,
    fun i => ⟨(h.lower_cases i).2.2, (h.upper_cases i).2.2⟩, h.make_self⟩

end WellFormed

def numbers (limits : Vector (Limit Float) n) : Value := Tensor.row (limits.map Limit.value)

def codes (kinds : Vector Kind n) : Value := .list (kinds.toList.map fun k => .whole k.code)

theorem toList_values {limits : Vector (Limit Float) n} (h : ∀ i, (limits.get i).Settled) :
    (limits.map Limit.value).toList.map Limit.ofScalar = limits.toList := by
  rw [Vector.toList_map, List.map_map]
  refine (List.map_congr_left fun l hl => ?_).trans (List.map_id _)
  obtain ⟨i, rfl⟩ := Vec.exists_get_of_mem hl
  exact Limit.ofScalar_value (h i)

theorem Tag.ofValue_code {k : Kind} (h : ∀ c, k ≠ .other c) : ofValue (.whole k.code) = .kind k := by
  cases k with
  | free | lower | both | upper => rfl
  | other c => exact absurd rfl (h c)

theorem Tags.ofValue_codes {kinds : Vector Kind n} (h : ∀ i c, kinds.get i ≠ .other c) :
    Tags.ofValue (codes kinds) = .each true (kinds.toList.map .kind) := by
  have heven : Tensor.isEven (codes kinds) = true := by
    rw [codes, Tensor.isEven, Tensor.layout_flat]
    · rfl
    · intro v hv
      obtain ⟨k, -, rfl⟩ := List.mem_map.mp hv
      rfl
  have htag : (kinds.toList.map fun k => Value.whole k.code).map Tag.ofValue = kinds.toList.map .kind := by
    rw [List.map_map]
    refine List.map_congr_left fun k hk => ?_
    obtain ⟨i, rfl⟩ := Vec.exists_get_of_mem hk
    exact Tag.ofValue_code (h i)
  rw [codes] at heven ⊢
  rw [ofValue, heven, htag]

theorem resolveAll_kinds (kinds : Vector Kind n) :
    (resolveAll n (kinds.toList.map .kind) : Except (Fault Float) _) = .ok kinds := by
  rw [resolveAll, ← Vector.toList_map, Vec.ofList?_toList]
  refine Vec.mapM_eq_ok.mpr fun i => ?_
  rw [Vec.get_map]
  rfl

namespace WellFormed

variable (h : b.WellFormed)

include h

theorem read_numbers : read (numbers b.lower) (numbers b.upper) .null .null = .ok ⟨n, b⟩ := by
  have hs : settle b.lower b.upper .absent = .ok (b.toBox, b.kinds) :=
    congrArg (fun k => Except.ok (b.toBox, k)) h.inferred
  rw [numbers, numbers, read_lists (Tensor.row_lists _) (Tensor.row_lists _) (.inl rfl),
    toList_values fun i => (h.lower_cases i).2.1, toList_values fun i => (h.upper_cases i).2.1, h.ofSides_self hs]
  rfl

theorem read_codes : read (numbers b.lower) (numbers b.upper) (codes b.kinds) .null = .ok ⟨n, b⟩ := by
  have hs : settle b.lower b.upper (.each true (b.kinds.toList.map .kind)) = .ok (b.toBox, b.kinds) := by
    simp only [settle, resolveAll_kinds, Except.bind, h.active, h.relaxed_self, if_true]
  rw [read, numbers, numbers, Side.ofValue_lists (Tensor.row_lists _), Side.ofValue_lists (Tensor.row_lists _),
    toList_values fun i => (h.lower_cases i).2.1, toList_values fun i => (h.upper_cases i).2.1,
    Tags.ofValue_codes h.kind]
  have hdimension : dimension (.each n b.lower.toList) (.each n b.upper.toList)
      (.each true (b.kinds.toList.map .kind)) = .ok n := by
    simp [dimension, Tags.rows?, Except.bind]
  rw [fromArrays, hdimension, Except.bind, h.ofSides_self hs]
  rfl

end WellFormed

/-! Tags decide which limits count. -/

section

variable {lo hi lo' hi' : Vector (Limit Float) n} {tags : Tags} {c : Box Float n} {kinds : Vector Kind n}

theorem settle_tagged (hs : settle lo hi tags = .ok (c, kinds)) (htags : tags ≠ .absent) :
    c = relaxed kinds lo hi ∧
      (activeFinite kinds lo' hi' = true → settle lo' hi' tags = .ok (relaxed kinds lo' hi', kinds)) := by
  cases tags with
  | absent => exact absurd rfl htags
  | single => cases hs
  | spelled tags | each even tags =>
      obtain ⟨ks, hks, hs⟩ := bind_eq_ok hs
      split_ifs at hs
      · cases hs
        refine ⟨rfl, fun hactive => ?_⟩
        simp only [settle, hks, Except.bind, hactive, if_true]
      · cases hs

/-- Limits that agree where they count come to the same. -/
theorem settle_agreeing (hs : settle lo hi tags = .ok (c, kinds)) (htags : tags ≠ .absent)
    (hlo : ∀ i, (kinds.get i).hasLower = true → lo'.get i = c.lower.get i)
    (hhi : ∀ i, (kinds.get i).hasUpper = true → hi'.get i = c.upper.get i) :
    settle lo' hi' tags = .ok (c, kinds) := by
  obtain ⟨hc, hsettle⟩ := settle_tagged hs htags
  have hactive : activeFinite kinds lo' hi' = true := by
    refine activeFinite_iff.mpr fun i => ⟨fun hk => ?_, fun hk => ?_⟩
    · rw [hlo i hk, (settle_sides hs i).1, hk]
    · rw [hhi i hk, (settle_sides hs i).2, hk]
  have hlower (i) : (relaxed kinds lo' hi').lower.get i = c.lower.get i := by
    rw [get_lower_relaxed]
    split
    · rename_i hk
      exact hlo i hk
    · rename_i hk
      rw [hc, get_lower_relaxed, if_neg hk]
  have hupper (i) : (relaxed kinds lo' hi').upper.get i = c.upper.get i := by
    rw [get_upper_relaxed]
    split
    · rename_i hk
      exact hhi i hk
    · rename_i hk
      rw [hc, get_upper_relaxed, if_neg hk]
  have hrelaxed : relaxed kinds lo' hi' = c :=
    congrArg₂ Box.mk (Vec.ext_get (funext hlower)) (Vec.ext_get (funext hupper))
  rw [hsettle hactive, hrelaxed]

end

/-- Whether a side in another one's place gives such limits where they count, and tells no other dimension. -/
structure Side.Restates (s s' : Side Float) (fill : Limit Float) (limits : Vector (Limit Float) n)
    (counts : Fin n → Bool) : Prop where
  rows : s'.rows? = s.rows? ∨ s'.rows? = .ok (some n)
  limits : ∃ v : Vector (Limit Float) n, (∀ name, s'.resolve name fill n = .ok v) ∧
    ∀ i, counts i = true → v.get i = limits.get i

theorem exists_isWhole {tags : Tags} {given : Value} (h : tags.checkCount given = .ok ()) (htags : tags ≠ .absent) :
    ∃ k, given.isWhole k = true := by
  obtain ⟨count, hcount, h⟩ := bind_eq_ok h
  cases count with
  | some k =>
      dsimp only at h
      split at h
      · rename_i hk
        exact ⟨k, hk⟩
      · cases h
  | none =>
      cases tags with
      | absent => exact absurd rfl htags
      | single | spelled | each => cases hcount

/-- A dimension that is no count but can be compared with one does not repeat a limit. -/
theorem Side.spread_each {side : Side Float} {name : String} {fill : Limit Float} {given : Value} {k : Int}
    {shape : List Nat} {lo : List (Limit Float)} (h : side.spread name fill given = .ok (shape, lo))
    (hgiven : ∀ i, given ≠ .whole i) (hk : given.isWhole k = true) :
    (∃ rows, side = .each rows lo) ∧ shape = [lo.length] ∧ given.isWhole lo.length = true := by
  cases side with
  | each rows limits =>
      rw [spread] at h
      split at h
      · rename_i hwhole
        cases h
        exact ⟨⟨rows, rfl⟩, rfl, hwhole⟩
      · cases h
  | absent | same l =>
      obtain ⟨shape, hroom, -⟩ := map_eq_ok h
      cases given with
      | whole i => exact absurd rfl (hgiven i)
      | text | list => cases hk
      | null | flag | real | table | bounds => cases hroom
  | uneven | unreadable => cases h

theorem Side.Restates.spread {side side' : Side Float} {name : String} {fill : Limit Float} {given : Value} {k : Int}
    {lo : List (Limit Float)} {limits : Vector (Limit Float) n} {counts : Fin n → Bool}
    (hs : side.Restates side' fill limits counts) (h : side.spread name fill given = .ok ([n], lo))
    (hgiven : ∀ i, given ≠ .whole i) (hk : given.isWhole k = true) :
    ∃ lo', side'.spread name fill given = .ok ([n], lo') ∧
      (each n lo).Restates (each n lo') fill limits counts := by
  obtain ⟨⟨rows, rfl⟩, hshape, hwhole⟩ := Side.spread_each h hgiven hk
  obtain ⟨v, hv, hagree⟩ := hs.limits
  have hrows : ∃ k, side'.rows? = .ok (some k) := hs.rows.elim (fun h => ⟨rows, h⟩) fun h => ⟨n, h⟩
  obtain ⟨k, hk⟩ := hrows
  cases side' with
  | each rows' lo' =>
      have hlength : lo'.length = n := by
        have hlo := hv name
        rw [resolve, Vec.ofList?] at hlo
        split_ifs at hlo with hlength
        · exact hlength
        · cases hlo
      refine ⟨lo', ?_, ⟨.inl rfl, v, fun name => hv name, hagree⟩⟩
      rw [Side.spread, hlength, if_pos]
      cases hshape
      exact hwhole
  | absent | same => cases hk
  | uneven => cases hk
  | unreadable => cases hv name

theorem dimension_restated {lower upper lower' upper' : Side Float} {tags : Tags}
    (h : dimension lower upper tags = .ok n)
    (hlower : lower'.rows? = lower.rows? ∨ lower'.rows? = .ok (some n))
    (hupper : upper'.rows? = upper.rows? ∨ upper'.rows? = .ok (some n)) : dimension lower' upper' tags = .ok n := by
  obtain ⟨told, htags, h⟩ := bind_eq_ok h
  rw [dimension, htags]
  cases told with
  | some k => exact h
  | none =>
      obtain ⟨told, hl, h⟩ := bind_eq_ok h
      rcases hlower with hlower | hlower
      · show (lower'.rows?).bind _ = _
        rw [hlower, hl]
        cases told with
        | some k => exact h
        | none =>
            rcases hupper with hupper | hupper
            · show (upper'.rows?).bind _ = _
              rw [hupper]
              exact h
            · show (upper'.rows?).bind _ = _
              rw [hupper]
              rfl
      · show (lower'.rows?).bind _ = _
        rw [hlower]
        rfl

section

variable {lower upper lower' upper' : Side Float} {tags : Tags} (htags : tags ≠ .absent)
    (hlower : lower.Restates lower' .negInf b.lower fun i => (b.kinds.get i).hasLower)
    (hupper : upper.Restates upper' .posInf b.upper fun i => (b.kinds.get i).hasUpper)

include htags hlower hupper

theorem ofSides_restated (h : ofSides n lower upper tags = .ok b) :
    ofSides n lower' upper' tags = .ok b := by
  obtain ⟨lo, hi, -, -, hs, hproper, hmake⟩ := ofSides_eq_ok.mp h
  obtain ⟨lo', hlo', hagree⟩ := hlower.limits
  obtain ⟨hi', hhi', hagree'⟩ := hupper.limits
  exact ofSides_eq_ok.mpr ⟨lo', hi', hlo' _, hhi' _, settle_agreeing hs htags hagree hagree', hproper, hmake⟩

theorem fromArrays_restated {dimension? : Option Int} (h : fromArrays lower upper tags dimension? = .ok ⟨n, b⟩) :
    fromArrays lower' upper' tags dimension? = .ok ⟨n, b⟩ := by
  have hsides := ofSides_restated htags hlower hupper (fromArrays_eq_ok h)
  cases dimension? with
  | some k =>
      simp only [fromArrays] at h ⊢
      split at h
      · rename_i hroom
        obtain ⟨c, hc, he⟩ := map_eq_ok h
        cases he
        rw [hsides]
        rfl
      · cases h
  | none =>
      obtain ⟨k, hk, h⟩ := bind_eq_ok h
      obtain ⟨c, hc, he⟩ := map_eq_ok h
      cases he
      rw [fromArrays, dimension_restated hk hlower.rows hupper.rows, Except.bind, hsides]
      rfl

theorem fitted_restated {given : Value} (hgiven : ∀ i, given ≠ .whole i)
    (h : fitted lower upper tags given = .ok ⟨n, b⟩) :
    fitted lower' upper' tags given = .ok ⟨n, b⟩ := by
  obtain ⟨lo, hi, hlo, hhi, hcount, hsides⟩ := fitted_eq_ok.mp h
  obtain ⟨k, hk⟩ := exists_isWhole hcount htags
  obtain ⟨lo', hlo', hrestates⟩ := hlower.spread hlo hgiven hk
  obtain ⟨hi', hhi', hrestates'⟩ := hupper.spread hhi hgiven hk
  exact fitted_eq_ok.mpr ⟨lo', hi', hlo', hhi', hcount, ofSides_restated htags hrestates hrestates' hsides⟩

end

theorem read_restated {lower upper lower' upper' tags dimension : Value}
    (h : read lower upper tags dimension = .ok ⟨n, b⟩) (htags : tags ≠ .null)
    (hlower : (Side.ofValue lower).Restates (.ofValue lower') .negInf b.lower fun i => (b.kinds.get i).hasLower)
    (hupper : (Side.ofValue upper).Restates (.ofValue upper') .posInf b.upper fun i => (b.kinds.get i).hasUpper) :
    read lower' upper' tags dimension = .ok ⟨n, b⟩ := by
  have hgiven : Tags.ofValue tags ≠ .absent := by
    cases tags with
    | null => exact absurd rfl htags
    | flag | whole | real | text | list | table | bounds =>
        intro he
        cases he
  cases dimension with
  | null | whole i =>
      rw [read] at h ⊢
      exact fromArrays_restated hgiven hlower hupper h
  | flag | real | text | list | table | bounds =>
      exact fitted_restated hgiven hlower hupper (fun i he => Value.noConfusion he) h

theorem Side.restates_lists {side : Side Float} {fill : Limit Float} {limits : Vector (Limit Float) n}
    {counts : Fin n → Bool} {v : Value} {x : Vector Float n} (hv : Tensor.Lists v x)
    (h : ∀ i, counts i = true → Limit.ofScalar (x.get i) = limits.get i) :
    side.Restates (.ofValue v) fill limits counts := by
  rw [ofValue_lists hv, ← Vector.toList_map]
  refine ⟨.inr rfl, _, fun name => resolve_each _, fun i hi => ?_⟩
  rw [Vec.get_map, h i hi]

/-- What bounds are read from does not matter but for the limits that count, and they are read back as they are; of two
lists of numbers there are bounds unless the numbers of some coordinate are apart. -/
theorem read_normalises {n : Nat} :
    (∀ {b : Bounds Float n} {lower upper tags dimension : Value},
      read lower upper tags dimension = .ok ⟨n, b⟩ →
      read (numbers b.lower) (numbers b.upper) .null .null = .ok ⟨n, b⟩ ∧
      read (numbers b.lower) (numbers b.upper) (codes b.kinds) .null = .ok ⟨n, b⟩ ∧
      (tags ≠ .null → ∀ lower' upper' : Value,
        ((Side.ofValue lower).Restates (.ofValue lower') .negInf b.lower fun i => (b.kinds.get i).hasLower) →
        ((Side.ofValue upper).Restates (.ofValue upper') .posInf b.upper fun i => (b.kinds.get i).hasUpper) →
        read lower' upper' tags dimension = .ok ⟨n, b⟩)) ∧
    ∀ {x y : Vector Float n} {lower upper dimension : Value},
      Tensor.Lists lower x → Tensor.Lists upper y → Spans dimension n →
      ((∃ why, read lower upper .null dimension = .error (.invalid why)) ↔ ∃ i, Apart (x.get i) (y.get i)) ∧
      ((∃ b, read lower upper .null dimension = .ok ⟨n, b⟩) ↔ ∀ i, ¬Apart (x.get i) (y.get i)) := by
  refine ⟨fun h => ?_, @fun x y _ _ _ hlower hupper hspans => ?_⟩
  · have hwell := read_wellFormed h
    exact ⟨hwell.read_numbers, hwell.read_codes, fun htags _ _ => read_restated h htags⟩
  · rw [read_lists hlower hupper hspans]
    cases hr : ofSides n (.each n (x.toList.map Limit.ofScalar)) (.each n (y.toList.map Limit.ofScalar)) .absent with
    | ok b =>
        have hfit := ofSides_lists.mp ⟨b, hr⟩
        exact ⟨iff_of_false nofun (not_exists.mpr hfit), iff_of_true ⟨b, rfl⟩ hfit⟩
    | error why =>
        have hapart : ¬∀ i, ¬Apart (x.get i) (y.get i) := fun hfit => by
          obtain ⟨b, hb⟩ := ofSides_lists.mpr hfit
          cases hr.symm.trans hb
        rw [← Vector.toList_map, ← Vector.toList_map] at hr
        obtain ⟨defect, rfl⟩ := ofSides_inferred_error hr
        exact ⟨iff_of_true ⟨_, rfl⟩ (not_forall_not.mp hapart), iff_of_false nofun hapart⟩

/-- A limit below the first of two numbers. -/
def floored : Bounds Float 2 :=
  { lower := #v[.fin 1.0, .negInf], upper := #v[.posInf, .posInf], kinds := #v[.lower, .free] }

/-- Whatever else is given beside the limit is dropped, and no limits are read from what lies apart. -/
theorem read_normalises_floored :
    read (Tensor.row #v[1.0, 9.0]) (Tensor.row #v[0.5, 2.0]) (.list [.text "lower", .whole 0]) .null =
      .ok ⟨2, floored⟩ ∧
    read (Tensor.row #v[1.0, 0.0 / 0.0]) (Tensor.row #v[-1.0 / 0.0, -3.0]) (.list [.text "lower", .whole 0]) .null =
      .ok ⟨2, floored⟩ ∧
    read (numbers floored.lower) (numbers floored.upper) (codes floored.kinds) .null = .ok ⟨2, floored⟩ ∧
    ∃ why, read (Tensor.row #v[1.0 / 0.0]) (Tensor.row #v[0.0 / 0.0]) .null .null = .error (.invalid why) := by
  have hread : read (Tensor.row #v[1.0, 9.0]) (Tensor.row #v[0.5, 2.0]) (.list [.text "lower", .whole 0]) .null =
      .ok ⟨2, floored⟩ := eq_ok_of_toOption (by decide +kernel)
  obtain ⟨-, hcodes, hrestated⟩ := read_normalises.1 hread
  refine ⟨hread, hrestated nofun _ _ (Side.restates_lists (Tensor.row_lists _) (by decide +kernel))
    (Side.restates_lists (Tensor.row_lists _) (by decide +kernel)), hcodes, ?_⟩
  have hapart := read_normalises.2 (Tensor.row_lists #v[1.0 / 0.0]) (Tensor.row_lists #v[0.0 / 0.0]) (.inl rfl)
  exact hapart.1.mpr ⟨0, .inr (.inl (by decide +kernel))⟩

end Bounds

end BoxBfgs
