import BoxBfgs.Proofs.Bounds
import BoxBfgs.Proofs.Double
import BoxBfgs.Proofs.Tensor

namespace BoxBfgs

namespace Limit

/-- A limit as a number is read: an infinite one has a place of its own. -/
def Settled {α : Type} [Scalar α] : Limit α → Prop
  | .fin a => Scalar.isFinite a = true ∨ Scalar.unordered a = true
  | .negInf | .posInf => True

theorem negInf_settled {α : Type} [Scalar α] : (negInf : Limit α).Settled := trivial

theorem posInf_settled {α : Type} [Scalar α] : (posInf : Limit α).Settled := trivial

theorem ofScalar_settled {α : Type} [Scalar α] (a : α) : (ofScalar a).Settled := by
  rw [ofScalar]
  split
  · rename_i h
    exact (Bool.or_eq_true _ _).mp h
  · split <;> trivial

variable {l u : Limit Float} {a : Float}

theorem eq_negInf (hl : l.Settled) (hordered : l.unordered = false) (hfinite : l.isFinite = false) (hne : l ≠ .posInf) :
    l = .negInf := by
  cases l with
  | negInf => rfl
  | fin a =>
      rcases hl with h | h
      · simp [isFinite, finite?, h] at hfinite
      · exact absurd (hordered.symm.trans h) Bool.false_ne_true
  | posInf => exact absurd rfl hne

theorem eq_posInf (hl : l.Settled) (hordered : l.unordered = false) (hfinite : l.isFinite = false) (hne : l ≠ .negInf) :
    l = .posInf := by
  cases l with
  | negInf => exact absurd rfl hne
  | fin a =>
      rcases hl with h | h
      · simp [isFinite, finite?, h] at hfinite
      · exact absurd (hordered.symm.trans h) Bool.false_ne_true
  | posInf => rfl

theorem isNaN_value (l : Limit Float) : l.value.isNaN = l.unordered := by
  cases l with
  | negInf | posInf => rfl
  | fin a => exact (Double.unordered_eq a).symm

theorem value_le_value (hl : l.unordered = false) (hu : u.unordered = false) (h : u.less l = false) :
    l.value ≤ u.value := by
  have hnl : l.value.isNaN = false := (isNaN_value l).trans hl
  have hnu : u.value.isNaN = false := (isNaN_value u).trans hu
  cases l with
  | negInf => exact Double.negInf_le hnu
  | fin a =>
      cases u with
      | negInf => simp [less, hl] at h
      | fin b => exact Double.le_of_not_lt hnl hnu (of_decide_eq_false h)
      | posInf => exact Double.le_posInf hnl
  | posInf =>
      cases u with
      | negInf => cases h
      | fin b =>
          rw [unordered] at hu
          simp [less, hu] at h
      | posInf => exact Double.le_refl hnl

theorem value_le_of_atLeast (h : l.atLeast a = true) : l.value ≤ a := by
  cases l with
  | negInf => exact Double.negInf_le (by simpa [atLeast, Double.unordered_eq] using h)
  | fin b => exact of_decide_eq_true h
  | posInf =>
      obtain ⟨hfinite, hpos⟩ := (Bool.and_eq_true _ _).mp h
      exact Double.posInf_le ⟨(Bool.not_eq_true' _).mp hfinite, of_decide_eq_true hpos⟩

theorem le_value_of_atMost (h : u.atMost a = true) : a ≤ u.value := by
  cases u with
  | negInf =>
      obtain ⟨hfinite, hneg⟩ := (Bool.and_eq_true _ _).mp h
      exact Double.le_negInf ⟨(Bool.not_eq_true' _).mp hfinite, of_decide_eq_true hneg⟩
  | fin b => exact of_decide_eq_true h
  | posInf => exact Double.le_posInf (by simpa [atMost, Double.unordered_eq] using h)

/-- What is clamped lies beyond neither limit, which what is no number does not either. -/
theorem lower_raise (h : l.value ≤ u.value) (a : Float) :
    ¬u.lower (l.raise a) < l.value ∧ ¬u.value < u.lower (l.raise a) := by
  obtain ⟨hl, hu⟩ := Double.not_isNaN_of_le h
  cases ha : a.isNaN with
  | true =>
      have hraise : l.raise a = a := if_pos (by rw [Double.unordered_eq, ha, Bool.or_true])
      have hlower : u.lower a = a := if_pos (by rw [Double.unordered_eq, ha, Bool.or_true])
      rw [hraise, hlower]
      exact ⟨Double.not_lt_of_isNaN (.inl ha), Double.not_lt_of_isNaN (.inr ha)⟩
  | false =>
      have hraised : l.value ≤ l.raise a := by
        rw [raise, Double.unordered_eq, ha, Bool.or_false]
        split
        · rename_i hat
          exact value_le_of_atLeast hat
        · exact Double.le_refl hl
      obtain ⟨-, hn⟩ := Double.not_isNaN_of_le hraised
      rw [lower, Double.unordered_eq, hn, Bool.or_false]
      split
      · rename_i hat
        exact ⟨Double.not_lt_of_le hraised, Double.not_lt_of_le (le_value_of_atMost hat)⟩
      · exact ⟨Double.not_lt_of_le h, Double.lt_irrefl _⟩

end Limit

namespace Bounds

variable {n : Nat} {b : Bounds Float n} {name : String} {fill : Limit Float}

/-- Bounds whose limits are finite on the sides that their kinds name and infinite on the others, and that leave room
between them. -/
structure WellFormed (b : Bounds Float n) : Prop where
  kind : ∀ i c, b.kinds.get i ≠ .other c
  lower : ∀ i, if (b.kinds.get i).hasLower then (b.lower.get i).isFinite = true else b.lower.get i = .negInf
  upper : ∀ i, if (b.kinds.get i).hasUpper then (b.upper.get i).isFinite = true else b.upper.get i = .posInf
  ordered : ∀ i, (b.lower.get i).value ≤ (b.upper.get i).value

namespace Side

def Settled : Side Float → Prop
  | .same l => l.Settled
  | .each _ limits => ∀ l ∈ limits, l.Settled
  | .absent | .uneven | .unreadable _ _ => True

theorem ofValue_settled (v : Value) : (ofValue v).Settled := by
  cases v with
  | null => trivial
  | list items =>
      rw [ofValue]
      split
      · trivial
      · split
        · intro l hl
          obtain ⟨a, -, rfl⟩ := List.mem_map.mp hl
          exact Limit.ofScalar_settled a
        · trivial
  | flag | whole | real | text | table | bounds =>
      rw [ofValue]
      split
      · exact Limit.ofScalar_settled _
      · trivial
      all_goals nofun

theorem resolve_settled {side : Side Float} (h : side.Settled) (hfill : fill.Settled) {v : Vector (Limit Float) n}
    (hv : side.resolve name fill n = .ok v) (i : Fin n) : (v.get i).Settled := by
  cases side with
  | absent =>
      cases hv
      rwa [Vec.get_replicate]
  | same l =>
      cases hv
      rwa [Vec.get_replicate]
  | each rows limits =>
      rw [resolve, Vec.ofList?] at hv
      split at hv
      · rename_i w hw
        cases hv
        split_ifs at hw
        cases hw
        exact h _ (by simp [Vec.get_eq_getElem])
      · cases hv
  | uneven | unreadable => cases hv

theorem spread_settled {side : Side Float} (h : side.Settled) (hfill : fill.Settled) {given : Value} {shape : List Nat}
    {limits : List (Limit Float)} (hs : side.spread name fill given = .ok (shape, limits)) :
    (each n limits).Settled := by
  cases side with
  | absent =>
      obtain ⟨_, -, he⟩ := map_eq_ok hs
      cases he
      intro l hl
      rwa [List.eq_of_mem_replicate hl]
  | same l =>
      obtain ⟨_, -, he⟩ := map_eq_ok hs
      cases he
      intro l hl
      rwa [List.eq_of_mem_replicate hl]
  | each rows limits =>
      rw [spread] at hs
      split_ifs at hs
      · cases hs
        exact h
      · cases hs
  | uneven | unreadable => cases hs

end Side

def Tag.Known (t : Tag) : Prop := ∀ c, t ≠ .kind (.other c)

def Tags.Known : Tags → Prop
  | .spelled tags | .each _ tags => ∀ t ∈ tags, t.Known
  | .absent | .single => True

theorem Tag.ofValue_known (v : Value) : (Tag.ofValue v).Known := by
  intro c
  cases v with
  | text s =>
      rw [ofValue]
      split
      · rename_i k hk
        rintro ⟨⟩
        have hmem := List.mem_of_find?_eq_some hk
        simp at hmem
      · nofun
  | null | flag | whole | real | list | table | bounds =>
      rw [ofValue]
      split
      · split
        · nofun
        · rename_i hne
          exact fun he => hne c (Tag.kind.inj he)
      · nofun
      · nofun
      all_goals nofun

theorem Tags.ofValue_known (v : Value) : (Tags.ofValue v).Known := by
  cases v with
  | null | flag | whole | real | bounds => trivial
  | list | text | table =>
      intro t ht
      obtain ⟨w, -, rfl⟩ := List.mem_map.mp ht
      exact Tag.ofValue_known _

theorem resolveAll_known {tags : List Tag} (h : ∀ t ∈ tags, t.Known) {kinds : Vector Kind n}
    (hk : (resolveAll n tags : Except (Fault Float) _) = .ok kinds) (i : Fin n) (c : Int) : kinds.get i ≠ .other c := by
  rw [resolveAll] at hk
  split at hk
  · rename_i v hv
    have hi := Vec.mapM_eq_ok.mp hk i
    intro hc
    rw [Vec.ofList?] at hv
    split_ifs at hv
    cases hv
    cases ht : (⟨tags.toArray, by simpa⟩ : Vector Tag n).get i with
    | kind k =>
        rw [ht, hc] at hi
        cases hi
        exact h _ (by rw [← ht]; simp [Vec.get_eq_getElem]) c rfl
    | unknown | unreadable =>
        rw [ht] at hi
        cases hi
  · cases hk

theorem settle_known {lo hi : Vector (Limit Float) n} {tags : Tags} (h : tags.Known) {c : Box Float n}
    {kinds : Vector Kind n} (hs : settle lo hi tags = .ok (c, kinds)) (i : Fin n) (k : Int) :
    kinds.get i ≠ .other k := by
  cases tags with
  | absent =>
      cases hs
      rw [Vec.zipWith_ofFn, Vec.get_ofFn_eq, Kind.ofLimits]
      split <;> exact fun he => Kind.noConfusion he
  | single => cases hs
  | spelled tags | each even tags =>
      obtain ⟨ks, hks, hs⟩ := bind_eq_ok hs
      split_ifs at hs
      · cases hs
        exact resolveAll_known h hks i k
      · cases hs

theorem settle_settled {lo hi : Vector (Limit Float) n} {tags : Tags} (hlo : ∀ i, (lo.get i).Settled)
    (hhi : ∀ i, (hi.get i).Settled) {c : Box Float n} {kinds : Vector Kind n}
    (hs : settle lo hi tags = .ok (c, kinds)) (i : Fin n) : (c.lower.get i).Settled ∧ (c.upper.get i).Settled := by
  cases tags with
  | absent =>
      cases hs
      exact ⟨hlo i, hhi i⟩
  | single => cases hs
  | spelled tags | each even tags =>
      obtain ⟨ks, hks, hs⟩ := bind_eq_ok hs
      split_ifs at hs
      · cases hs
        rw [get_lower_relaxed, get_upper_relaxed]
        constructor
        · split
          · exact hlo i
          · trivial
        · split
          · exact hhi i
          · trivial
      · cases hs

theorem ofSides_wellFormed {lower upper : Side Float} {tags : Tags} (hlower : lower.Settled) (hupper : upper.Settled)
    (htags : tags.Known) (h : ofSides n lower upper tags = .ok b) : b.WellFormed := by
  obtain ⟨lo, hi, hlo, hhi, hs, hproper, hmake⟩ := ofSides_eq_ok.mp h
  obtain ⟨-, hordered, hcross⟩ := make_eq_ok.mp hmake
  have hsettled := settle_settled (Side.resolve_settled hlower Limit.negInf_settled hlo)
    (Side.resolve_settled hupper Limit.posInf_settled hhi) hs
  refine ⟨settle_known htags hs, fun i => ?_, fun i => ?_, fun i => ?_⟩
  · rw [← (settle_sides hs i).1]
    split
    · assumption
    · rename_i hinfinite
      exact Limit.eq_negInf (hsettled i).1 (hordered i).1 (Bool.eq_false_of_not_eq_true hinfinite) (hproper i).1
  · rw [← (settle_sides hs i).2]
    split
    · assumption
    · rename_i hinfinite
      exact Limit.eq_posInf (hsettled i).2 (hordered i).2 (Bool.eq_false_of_not_eq_true hinfinite) (hproper i).2
  · exact Limit.value_le_value (hordered i).1 (hordered i).2 (hcross i)

theorem ofRow_eq_ok {shape shape' : List Nat} {lo hi : List (Limit Float)} {tags : Tags} :
    ofRow shape shape' lo hi tags = .ok ⟨n, b⟩ ↔
      shape = [n] ∧ shape' = [n] ∧ ofSides n (.each n lo) (.each n hi) tags = .ok b := by
  constructor
  · intro h
    rw [ofRow.eq_def] at h
    split at h
    · split_ifs at h with hshape
      · obtain ⟨c, hc, he⟩ := map_eq_ok h
        cases he
        exact ⟨rfl, hshape, hc⟩
      · cases h
    · split_ifs at h <;> cases h
  · rintro ⟨rfl, rfl, h⟩
    rw [ofRow, if_pos rfl, h]
    rfl

theorem fitted_eq_ok {lower upper : Side Float} {tags : Tags} {given : Value} :
    fitted lower upper tags given = .ok ⟨n, b⟩ ↔ ∃ lo hi,
      lower.spread "lower" .negInf given = .ok ([n], lo) ∧ upper.spread "upper" .posInf given = .ok ([n], hi) ∧
      tags.checkCount given = .ok () ∧ ofSides n (.each n lo) (.each n hi) tags = .ok b := by
  constructor
  · intro h
    obtain ⟨⟨shape, lo⟩, hlo, h⟩ := bind_eq_ok h
    obtain ⟨⟨shape', hi⟩, hhi, h⟩ := bind_eq_ok h
    obtain ⟨_, hcount, h⟩ := bind_eq_ok h
    obtain ⟨rfl, rfl, hsides⟩ := ofRow_eq_ok.mp h
    exact ⟨lo, hi, hlo, hhi, hcount, hsides⟩
  · rintro ⟨lo, hi, hlo, hhi, hcount, hsides⟩
    simp only [fitted, hlo, hhi, hcount, Except.bind]
    exact ofRow_eq_ok.mpr ⟨rfl, rfl, hsides⟩

theorem read_wellFormed {lower upper tags dimension : Value} (h : read lower upper tags dimension = .ok ⟨n, b⟩) :
    b.WellFormed := by
  have hlower := Side.ofValue_settled lower
  have hupper := Side.ofValue_settled upper
  have htags := Tags.ofValue_known tags
  cases dimension with
  | null | whole i =>
      rw [read] at h
      exact ofSides_wellFormed hlower hupper htags (fromArrays_eq_ok h)
  | flag | real | text | list | table | bounds =>
      obtain ⟨lo, hi, hlo, hhi, -, h⟩ := fitted_eq_ok.mp h
      exact ofSides_wellFormed (Side.spread_settled hlower Limit.negInf_settled hlo)
        (Side.spread_settled hupper Limit.posInf_settled hhi) htags h

theorem readFree_eq_ok {dimension : Value} (h : readFree dimension = .ok ⟨n, b⟩) : b = free n := by
  obtain ⟨shape, -, h⟩ := bind_eq_ok h
  split at h
  · obtain ⟨_, -, he⟩ := map_eq_ok h
    cases he
    rfl
  · cases h

theorem free_wellFormed (n : Nat) : (free n : Bounds Float n).WellFormed where
  kind i c := by
    simp only [free, Vec.get_replicate]
    exact fun he => Kind.noConfusion he
  lower i := by simp [free, Kind.hasLower]
  upper i := by simp [free, Kind.hasUpper]
  ordered i := by
    simp only [free, Vec.get_replicate]
    exact Double.negInf_le rfl

theorem make_ordered {c : Box Float n} {kinds : Vector Kind n} (h : make c kinds = .ok b) (i : Fin n) :
    (b.lower.get i).value ≤ (b.upper.get i).value := by
  obtain ⟨rfl, hordered, hcross⟩ := make_eq_ok.mp h
  exact Limit.value_le_value (hordered i).1 (hordered i).2 (hcross i)

theorem readDirect_ordered {lower upper kinds : Value} (h : readDirect lower upper kinds = .ok ⟨n, b⟩) (i : Fin n) :
    (b.lower.get i).value ≤ (b.upper.get i).value := by
  obtain ⟨lo, -, h⟩ := bind_eq_ok h
  obtain ⟨hi, -, h⟩ := bind_eq_ok h
  obtain ⟨codes, -, h⟩ := bind_eq_ok h
  dsimp only at h
  split_ifs at h
  · cases h
  · rw [ofLists] at h
    split at h
    · obtain ⟨c, hc, he⟩ := map_eq_ok h
      cases he
      exact make_ordered hc i
    · cases h

/-- No coordinate lies below its lower limit or above its upper one. -/
def Admits (b : Bounds Float n) (x : Vector Float n) : Prop :=
  ∀ i, ¬x.get i < (b.lower.get i).value ∧ ¬(b.upper.get i).value < x.get i

theorem project_admits (h : ∀ i, (b.lower.get i).value ≤ (b.upper.get i).value) (x : Vector Float n) :
    b.Admits (b.project x) := by
  intro i
  rw [Box.project, Vec.get_ofFn]
  exact Limit.lower_raise (h i) _

/-- Whether the kinds speak of no limit only where there is none. -/
def Candid (b : Bounds Float n) : Prop :=
  b.unconstrained = true → ∀ i, b.lower.get i = .negInf ∧ b.upper.get i = .posInf

theorem WellFormed.candid (h : b.WellFormed) : b.Candid := by
  intro hu i
  have hk : b.kinds.get i = .free := by
    have := Vector.all_eq_true.mp hu i i.isLt
    simpa [← Vec.get_eq_getElem] using this
  have hlower := h.lower i
  have hupper := h.upper i
  rw [hk] at hlower hupper
  exact ⟨hlower, hupper⟩

theorem Candid.admits (h : b.Candid) (hu : b.unconstrained = true) (x : Vector Float n) : b.Admits x := by
  intro i
  obtain ⟨hl, hu⟩ := h hu i
  rw [hl, hu]
  exact ⟨Double.not_lt_negInf _, Double.not_posInf_lt _⟩

end Bounds

end BoxBfgs
