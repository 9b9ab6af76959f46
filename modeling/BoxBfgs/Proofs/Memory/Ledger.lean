import BoxBfgs.Proofs.Memory.Product
import BoxBfgs.Proofs.Memory.Room
import Mathlib.Data.List.DropRight

namespace BoxBfgs

open Matrix

section

variable {α : Type} [Scalar α] {j k n : Nat}

theorem Vec.dot_congr {x y : Vector α j} {x' y' : Vector α k} (hx : x.toList = x'.toList)
    (hy : y.toList = y'.toList) : Vec.dot x y = Vec.dot x' y' := by
  obtain rfl : j = k := by simpa using congrArg List.length hx
  rw [Vector.toList_inj.mp hx, Vector.toList_inj.mp hy]

theorem Tensor.dot_ofVector (x y : Vector α n) :
    (Tensor.ofVector x).dot (.ofVector y) = .ok (dotEntries x.toList y.toList) :=
  if_pos rfl

namespace Memory

theorem admissible_congr {p : Pair α j} {q : Pair α k} (hs : p.s.toList = q.s.toList) (hy : p.y.toList = q.y.toList) :
    admissible p = admissible q := by
  rw [admissible, admissible, Vec.dot_congr hs hy, Vec.dot_congr hy hy]

theorem push_of_room {m : Memory α n} {p : Pair α n} (hp : admissible p = true)
    (hroom : (if m.size = m.depth then m.dropOldest else m).size < m.capacity) :
    m.push p = .stored ((if m.size = m.depth then m.dropOldest else m).append p) := by
  have hcapacity : (if m.size = m.depth then m.dropOldest else m).capacity = m.capacity := by
    split <;> rfl
  rw [← hcapacity] at hroom
  simp only [push, hp, Bool.not_true, Bool.false_eq_true, if_false]
  exact if_pos hroom

/-- The memory as it is if no factor is kept. -/
def uncached (m : Memory α n) : Memory α n := { m with cached := none }

theorem computeFactor_uncached (m : Memory α n) : m.uncached.computeFactor = m.computeFactor := by
  have hmiddle : m.uncached.middle = m.middle := rfl
  simp only [computeFactor]
  rw [hmiddle]
  simp only [uncached]
  cases Factor.ofMatrix m.middle <;> rfl

namespace Sound

variable {m : Memory ℝ n} (h : m.Sound)

include h

theorem factor_uncached : m.uncached.factor = m.factor :=
  (computeFactor_uncached m).trans h.factor_eq_computeFactor.symm

theorem solveMiddle_uncached (u : Vector ℝ (m.size + m.size)) : m.uncached.solveMiddle u = m.solveMiddle u := by
  have hfactor : m.uncached.factor = m.factor := h.factor_uncached
  simp only [solveMiddle]
  rw [hfactor]
  simp only [uncached]
  cases m.factor with
  | ok f =>
      simp only [Factor.solve?_real]
      rfl
  | error why => rfl

theorem hessianProduct_uncached (v : Vector ℝ n) : m.uncached.hessianProduct v = m.hessianProduct v := by
  have hsolve : m.uncached.solveMiddle (m.uncached.transposeW v) = m.solveMiddle (m.transposeW v) :=
    h.solveMiddle_uncached _
  simp only [hessianProduct]
  rw [hsolve]
  rfl

theorem toMatrix_sty : m.styMatrix.toMatrix = m.sMatrix.toMatrixᵀ * m.yMatrix.toMatrix := by
  ext i j
  rw [Dense.toMatrix_apply, styMatrix, Dense.entry_ofFn, h.sty_entry, mul_apply]
  simp [sMatrix, yMatrix, dotProduct]

theorem toMatrix_sts : m.stsMatrix.toMatrix = m.sMatrix.toMatrixᵀ * m.sMatrix.toMatrix := by
  ext i j
  rw [Dense.toMatrix_apply, stsMatrix, Dense.entry_ofFn, h.sts_entry, mul_apply]
  simp [sMatrix, dotProduct]

end Sound

end Memory

end

namespace Store

variable {α : Type} [Scalar α] {k : Nat} {m : Store α}

/-- What a memory is asked for. The vectors of a pair can have any one length. -/
inductive Request (α : Type) where
  | push {k : Nat} (p : Pair α k)
  | clear
  | resize (n depth : Int)
  | solve (u : Tensor α)
  | product (v : Tensor α)
  | factor

/-- A memory with the depth that it was last given, and with the pairs offered to it since it was last emptied. -/
structure Ledger (α : Type) where
  store : Store α
  depth : Nat
  offered : List ((k : Nat) × Pair α k)

def Ledger.after (l : Ledger α) : Request α → Ledger α
  | .push p => { l with store := (l.store.push (.ofVector p.s) (.ofVector p.y)).2, offered := l.offered ++ [⟨_, p⟩] }
  | .clear => { l with store := l.store.clear, offered := [] }
  | .resize n depth =>
      match l.store.resize (.whole n) (.whole depth) with
      | (.ok (), m) => { store := m, depth := depth.toNat, offered := [] }
      | (.error _, m) => { l with store := m }
  | .solve _ | .factor => { l with store := l.store.keepFactor }
  -- The factor is asked for once the vector has gone through the pairs.
  | .product v => if (l.store.transposeW v).isOk then { l with store := l.store.keepFactor } else l

/-- A pair to be stored has the memory's dimension, and there is room for the sizes asked for. -/
def Fits (m : Store α) : Request α → Prop
  | @Request.push _ k p => Memory.admissible p = true → k = m.width
  | .resize n depth => 0 ≤ n → 1 ≤ depth → depth ≤ Memory.maxDepth → depth * n < Fault.maxRoom
  | .clear | .solve _ | .product _ | .factor => True

/-- The memories that requests of any kind and number lead to. -/
inductive Ledger.Served : Ledger α → Prop
  | made {n depth : Int} {m : Store α} (h : make (.whole n) (.whole depth) = .ok m) : Served ⟨m, depth.toNat, []⟩
  | step {l : Ledger α} {q : Request α} (h : Served l) (hq : l.store.Fits q) : Served (l.after q)

theorem admissible_ofVector (p : Pair α k) :
    admissible (.ofVector p.s) (.ofVector p.y) = .ok (Memory.admissible p) := by
  obtain ⟨y, hy, hentries⟩ : ∃ y : Vector α (Tensor.ofVector p.s).entries.length,
      (Tensor.ofVector p.y).vector? (Tensor.ofVector p.s).entries.length = some y ∧ y.toList = p.y.toList := by
    have hlength : p.y.toList.length = p.s.toList.length := by simp
    exact ⟨_, dif_pos hlength, rfl⟩
  have hcongr : Memory.admissible ⟨Vec.ofList (Tensor.ofVector p.s).entries, y⟩ = Memory.admissible p :=
    Memory.admissible_congr rfl hentries
  rw [admissible, Tensor.dot_ofVector, Tensor.dot_ofVector]
  simp only [bind, Except.bind, hy, hcongr]
  rfl

theorem push_refused (p : Pair α k) (hp : Memory.admissible p = false) :
    m.push (.ofVector p.s) (.ofVector p.y) = (.ok false, m) := by
  rw [push, admissible_ofVector, hp]

omit [Scalar α] in
theorem vector?_ofVector (v : Vector α m.width) : m.vector? (.ofVector v) = some v :=
  (if_pos rfl).trans (Tensor.vector?_ofVector v)

theorem isEmpty_of_full (h : m.room.Holds m.memory) (hroom : 1 ≤ m.room.capacity)
    (hfull : (m.memory.size : Int) = m.memory.depth) : m.memory.isEmpty = false := by
  have hsize : m.memory.size = m.room.capacity := by exact_mod_cast hfull.trans h.depth
  rw [Memory.isEmpty, List.isEmpty_eq_false_iff, ← List.length_pos_iff]
  exact hroom.trans_eq hsize.symm

theorem vacated_of_holds (h : m.room.Holds m.memory) (hroom : 1 ≤ m.room.capacity) : m.vacated =
    if m.memory.size = m.memory.depth then (m.room.shift, m.memory.size - 1) else (m.room, m.memory.size) := by
  rw [vacated, full]
  by_cases hfull : (m.memory.size : Int) = m.memory.depth
  · rw [if_pos hfull, if_pos (decide_eq_true hfull), isEmpty_of_full h hroom hfull]
    rfl
  · rw [if_neg hfull, if_neg (by simpa using hfull)]

theorem vacated_lt (h : m.room.Holds m.memory) (hroom : 1 ≤ m.room.capacity) :
    m.vacated.2 < m.vacated.1.capacity := by
  have hdepth := h.depth
  have hle := h.size
  rw [vacated_of_holds h hroom]
  split
  · rw [Room.capacity_shift]
    omega
  · change m.memory.size < m.room.capacity
    omega

theorem write_vacated (h : m.room.Holds m.memory) (hroom : 1 ≤ m.room.capacity) (p : Pair α m.width) :
    m.vacated.1.write m.vacated.2 p = m.room.store m.memory (some p) := by
  rw [vacated_of_holds h hroom, Room.store]
  split <;> rfl

theorem width_push (s y : Tensor α) : (m.push s y).2.width = m.width := by
  rw [push]
  split
  · rfl
  · rfl
  · dsimp only
    split
    · rfl
    · split
      · split
        · rfl
        · split <;> rfl
      · rfl

/-- An admissible pair is stored by the memory, and in the room for it. -/
theorem push_stored (h : m.room.Holds m.memory) (hroom : 1 ≤ m.room.capacity) (p : Pair α m.width)
    (hp : Memory.admissible p = true) : ∃ memory, m.memory.push p = .stored memory ∧
      m.push (.ofVector p.s) (.ofVector p.y) = (.ok true, { m with memory, room := m.room.store m.memory (some p) }) := by
  have hdepth := h.depth
  have hle := h.size
  have hkept : (if m.memory.size = m.memory.depth then m.memory.dropOldest else m.memory).size < m.memory.capacity := by
    rw [h.capacity]
    split
    · have hsize : m.memory.dropOldest.size = m.memory.size - 1 := List.length_drop
      omega
    · omega
  have hstored := Memory.push_of_room hp hkept
  have hsome : (m.full && m.memory.isEmpty) = false := by
    by_cases hfull : (m.memory.size : Int) = m.memory.depth
    · rw [isEmpty_of_full h hroom hfull, Bool.and_false]
    · rw [full, decide_eq_false hfull, Bool.false_and]
  refine ⟨_, hstored, ?_⟩
  rw [push, admissible_ofVector, hp]
  simp only [vector?_ofVector, hstored, hsome]
  rw [if_neg (not_le.mpr (vacated_lt h hroom)), if_neg Bool.false_ne_true, write_vacated h hroom]

omit [Scalar α] in
theorem checkSizes_whole {n depth : Int} (h : checkSizes (α := α) (.whole n) (.whole depth) = .ok ()) :
    1 ≤ depth ∧ depth ≤ Memory.maxDepth ∧ 0 ≤ n := by
  obtain ⟨d, hd, h⟩ := bind_eq_ok h
  obtain rfl : Cap.whole depth = d := Except.ok.inj hd
  split_ifs at h with hdepth
  · cases h
  · obtain ⟨k, hk, h⟩ := bind_eq_ok h
    obtain rfl : Cap.whole n = k := Except.ok.inj hk
    split_ifs at h with hn
    · cases h
    · simp only [Cap.less, Cap.atMost, Bool.or_eq_true, decide_eq_true_eq, Bool.not_eq_true', decide_eq_false_iff_not,
        not_or, not_lt, not_not] at hdepth hn
      exact ⟨hdepth.1, hdepth.2, hn⟩

theorem rebuild_whole {n depth : Int} (hn : 0 ≤ n) (hdepth : 0 ≤ depth) (hroom : depth * n < Fault.maxRoom) :
    m.rebuild (.whole n) (.whole depth) = (.ok (), empty n.toNat depth.toNat) := by
  have hcheck : Fault.checkRoom (α := α) (depth * n) = .ok () := by
    have hlt : (Fault.maxRoom : Int) < Fault.maxEntries := by decide
    have hnonneg := mul_nonneg hdepth hn
    rw [Fault.checkRoom, if_neg (by simp; omega), if_neg hroom.not_ge]
  simp only [rebuild, Value.integer, hcheck]

/-- A change of the sizes is refused, empties the memory if they stay, and makes a new one if they do not. -/
theorem resize_cases {n depth d : Int} (hd : m.depth = .whole d) (hq : m.Fits (.resize n depth)) :
    (∃ why, m.resize (.whole n) (.whole depth) = (.error why, m)) ∨
      1 ≤ depth ∧ depth ≤ Memory.maxDepth ∧
        (m.resize (.whole n) (.whole depth) = (.ok (), m.clear) ∧ depth = d ∨
          m.resize (.whole n) (.whole depth) = (.ok (), empty n.toNat depth.toNat)) := by
  rw [resize]
  split
  · rename_i why hwhy
    exact .inl ⟨why, rfl⟩
  · rename_i hsizes
    obtain ⟨hpos, hle, hn⟩ := checkSizes_whole hsizes
    refine .inr ⟨hpos, hle, ?_⟩
    rw [rebuild_whole hn (zero_le_one.trans hpos) (hq hn hpos hle)]
    split_ifs with hsame
    · left
      rw [hd] at hsame
      exact ⟨rfl, by simpa [Value.equals, Value.isWhole] using (Bool.and_eq_true_iff.mp hsame).2⟩
    · exact .inr rfl

theorem make_eq_ok {n depth : Int} (h : make (.whole n) (.whole depth) = .ok m) :
    1 ≤ depth ∧ depth ≤ Memory.maxDepth ∧ m = empty n.toNat depth.toNat := by
  obtain ⟨u, hsizes, h⟩ := bind_eq_ok h
  obtain ⟨hpos, hle, -⟩ := checkSizes_whole hsizes
  obtain ⟨v, hr, hm⟩ := map_eq_ok h
  refine ⟨hpos, hle, hm.symm.trans ?_⟩
  cases hroom : Fault.checkRoom (α := α) (depth * n) with
  | error why =>
      rw [hroom] at hr
      cases hr
  | ok => rfl

namespace Ledger

/-- What holds of a memory after any requests: it holds the newest ones of the pairs that it should hold, and its room
holds what it does. -/
structure Kept (l : Ledger ℝ) : Prop where
  sound : l.store.memory.Sound
  holds : l.store.room.Holds l.store.memory
  depth_pos : 1 ≤ l.depth
  depth_le : l.depth ≤ Memory.maxDepth
  depth : l.store.depth = .whole l.depth
  capacity : l.store.room.capacity = l.depth
  pairs : l.store.memory.pairs.map (Sigma.mk l.store.width) =
    (l.offered.filter fun e => Memory.admissible e.2).rtake l.depth

theorem kept_empty (n : Nat) {depth : Nat} (hpos : 1 ≤ depth) (hle : depth ≤ Memory.maxDepth) :
    Kept ⟨empty n depth, depth, []⟩ where
  sound := Memory.fresh_sound _ _
  holds := Room.holds_nil (by rw [empty, Room.capacity_empty]; rfl) (by rw [empty, Room.capacity_empty]; rfl) rfl rfl rfl
  depth_pos := hpos
  depth_le := hle
  depth := rfl
  capacity := Room.capacity_empty n depth
  pairs := (List.rtake_nil depth).symm

variable {l : Ledger ℝ}

theorem Kept.cleared (h : Kept l) : Kept { l with store := l.store.clear, offered := [] } where
  sound := Memory.fresh_sound _ _
  holds := h.holds.turned .cleared
  depth_pos := h.depth_pos
  depth_le := h.depth_le
  depth := h.depth
  capacity := h.capacity
  pairs := (List.rtake_nil _).symm

theorem Kept.factored (h : Kept l) : Kept { l with store := l.store.keepFactor } where
  sound := Memory.keepFactor_sound h.sound
  holds := h.holds.turned .factored
  depth_pos := h.depth_pos
  depth_le := h.depth_le
  depth := h.depth
  capacity := h.capacity
  pairs := by
    have hpairs : l.store.memory.keepFactor.pairs = l.store.memory.pairs := by
      rw [Memory.keepFactor]
      split
      · rfl
      · split <;> rfl
    exact (congrArg (List.map _) hpairs).trans h.pairs

/-- Of the last entries of a list, one more of it takes the place of the first if there were enough. -/
theorem rtake_concat {β : Type} {d : Nat} (hd : 1 ≤ d) (K : List β) (b : β) :
    (K ++ [b]).rtake d = (if (K.rtake d).length = d then (K.rtake d).drop 1 else K.rtake d) ++ [b] := by
  obtain ⟨e, rfl⟩ := Nat.exists_eq_add_of_le' hd
  rw [List.rtake_concat_succ]
  congr 1
  simp only [List.rtake, List.length_drop, List.drop_drop]
  split_ifs with hfull
  · congr 1
    omega
  · congr 1
    omega

theorem capacity_store {n : Nat} (r : Room ℝ n) (m : Memory ℝ n) (p : Pair ℝ n) :
    (r.store m (some p)).capacity = r.capacity := by
  rw [Room.store]
  split
  · rw [Room.capacity_write, Room.capacity_shift]
  · rw [Room.capacity_write]

theorem Kept.size_eq_iff (h : Kept l) : (l.store.memory.size : Int) = l.store.memory.depth ↔
    ((l.offered.filter fun e => Memory.admissible e.2).rtake l.depth).length = l.depth := by
  rw [← h.pairs, List.length_map, h.holds.depth, h.capacity, Nat.cast_inj]

theorem Kept.refused (h : Kept l) (p : Pair ℝ k) (hp : Memory.admissible p = false) : Kept (l.after (.push p)) := by
  have hafter : l.after (.push p) = { l with offered := l.offered ++ [⟨k, p⟩] } := by
    rw [after, push_refused p hp]
  have hfilter : (l.offered ++ [(⟨k, p⟩ : (k : Nat) × Pair ℝ k)]).filter (fun e => Memory.admissible e.2) =
      l.offered.filter fun e => Memory.admissible e.2 := by
    rw [List.filter_append, List.filter_singleton, hp]
    exact List.append_nil _
  rw [hafter]
  exact { h with pairs := h.pairs.trans (congrArg (List.rtake · l.depth) hfilter.symm) }

theorem Kept.stored (h : Kept l) (p : Pair ℝ l.store.width) (hp : Memory.admissible p = true) :
    Kept (l.after (.push p)) := by
  obtain ⟨memory, hstored, hpush⟩ := push_stored h.holds (h.depth_pos.trans_eq h.capacity.symm) p hp
  have hafter : l.after (.push p) = { l with
      store := { l.store with memory, room := l.store.room.store l.store.memory (some p) }
      offered := l.offered ++ [⟨l.store.width, p⟩] } := by
    rw [after, hpush]
  rw [hafter]
  refine { sound := Memory.push_sound h.sound hstored, holds := h.holds.turned (.pushed hstored), depth_pos := h.depth_pos,
           depth_le := h.depth_le, depth := h.depth, capacity := (capacity_store _ _ _).trans h.capacity, pairs := ?_ }
  obtain ⟨-, -, rfl⟩ := Memory.push_stored hstored
  dsimp only
  have hiff := h.size_eq_iff
  rw [List.filter_append, List.filter_singleton, hp, cond_true, rtake_concat h.depth_pos]
  by_cases hfull : (l.store.memory.size : Int) = l.store.memory.depth
  · rw [if_pos hfull, if_pos (hiff.mp hfull), ← h.pairs, ← List.map_drop]
    exact List.map_append
  · rw [if_neg hfull, if_neg (hfull ∘ hiff.mpr), ← h.pairs]
    exact List.map_append

theorem Kept.after (h : Kept l) {q : Request ℝ} (hq : l.store.Fits q) : Kept (l.after q) := by
  cases q with
  | push p =>
      cases hp : Memory.admissible p with
      | false => exact h.refused p hp
      | true =>
          obtain rfl := hq hp
          exact h.stored p hp
  | clear => exact h.cleared
  | resize n depth =>
      obtain ⟨why, hr⟩ | ⟨hpos, hle, ⟨hr, rfl⟩ | hr⟩ := resize_cases h.depth hq
      · rw [Ledger.after, hr]
        exact h
      · rw [Ledger.after, hr]
        exact h.cleared
      · rw [Ledger.after, hr]
        exact kept_empty _ (by omega) (by omega)
  | solve | factor => exact h.factored
  | product v =>
      rw [Ledger.after]
      split
      · exact h.factored
      · exact h

theorem Served.kept (h : Served l) : Kept l := by
  induction h with
  | made h =>
      obtain ⟨hpos, hle, rfl⟩ := make_eq_ok h
      exact kept_empty _ (by omega) (by omega)
  | step h hq ih => exact ih.after hq

end Ledger

def uncached (m : Store α) : Store α := { m with memory := m.memory.uncached }

section

variable {m : Store ℝ} (h : m.memory.Sound)

include h

theorem solveMiddle_uncached (u : Tensor ℝ) : m.uncached.solveMiddle u = m.solveMiddle u := by
  have hfactor : m.uncached.memory.factor = m.memory.factor := h.factor_uncached
  simp only [solveMiddle]
  rw [hfactor]
  simp only [uncached]
  cases m.memory.factor <;> rfl

theorem hessianProduct_uncached (v : Tensor ℝ) : m.uncached.hessianProduct v = m.hessianProduct v := by
  have hproduct (v : Vector ℝ m.width) : m.uncached.memory.hessianProduct v = m.memory.hessianProduct v :=
    h.hessianProduct_uncached v
  have hvector : m.uncached.vector? v = m.vector? v := rfl
  have htimes (u : Tensor ℝ) : m.uncached.timesW u = m.timesW u := rfl
  have htranspose : m.uncached.transposeW v = m.transposeW v := by
    simp only [transposeW, hvector]
    cases m.vector? v <;> rfl
  simp only [hessianProduct, hvector, htimes, htranspose, solveMiddle_uncached h]
  cases m.vector? v with
  | none => rfl
  | some v =>
      dsimp only
      rw [hproduct]
      rfl

end

namespace Ledger

/-- After any requests the memory holds the newest admissible pairs, with their products and their scaling, and answers as
if nothing had been kept from earlier answers. -/
theorem Served.answers {m : Store ℝ} {depth : Nat} {offered : List ((k : Nat) × Pair ℝ k)}
    (h : Served ⟨m, depth, offered⟩) :
    m.memory.pairs.map (Sigma.mk m.width) = (offered.filter fun e => Memory.admissible e.2).rtake depth ∧
      m.depth = .whole depth ∧ m.room.Holds m.memory ∧
      m.memory.styMatrix.toMatrix = m.memory.sMatrix.toMatrixᵀ * m.memory.yMatrix.toMatrix ∧
      m.memory.stsMatrix.toMatrix = m.memory.sMatrix.toMatrixᵀ * m.memory.sMatrix.toMatrix ∧
      (m.memory.pairs = [] → m.memory.theta = 1) ∧
      (∀ p, m.memory.pairs.getLast? = some p → m.memory.theta = (p.y.get ⬝ᵥ p.y.get) / (p.s.get ⬝ᵥ p.y.get)) ∧
      (∀ {k : Nat} (p : Pair ℝ k), Memory.admissible p = false →
        m.push (.ofVector p.s) (.ofVector p.y) = (.ok false, m)) ∧
      (∀ p : Pair ℝ m.width, Memory.admissible p = true →
        ∃ m', m.push (.ofVector p.s) (.ofVector p.y) = (.ok true, m')) ∧
      m.memory.factor = m.memory.computeFactor ∧
      ∀ u, m.solveMiddle u = m.uncached.solveMiddle u ∧ m.hessianProduct u = m.uncached.hessianProduct u := by
  have hk := h.kept
  have hs : m.memory.Sound := hk.sound
  refine ⟨hk.pairs, hk.depth, hk.holds, hs.toMatrix_sty, hs.toMatrix_sts, fun hnone => ?_, fun p hp => ?_,
    fun p hp => push_refused p hp, fun p hp => ?_, hs.factor_eq_computeFactor, fun u => ⟨?_, ?_⟩⟩
  · rw [hs.theta, hnone]
    rfl
  · rw [hs.theta, Memory.scaling, hp, dotProduct_comm p.s.get]
  · obtain ⟨memory, -, hpush⟩ := push_stored hk.holds (hk.depth_pos.trans_eq hk.capacity.symm) p hp
    exact ⟨_, hpush⟩
  · exact (solveMiddle_uncached hs u).symm
  · exact (hessianProduct_uncached hs u).symm

theorem admissible_number {c : ℝ} (hc : 0 < c) (hle : c ≤ 2) :
    Memory.admissible (⟨#v[1], #v[c]⟩ : Pair ℝ 1) = true := by
  have hlt : Scalar.epsilon * (c * c) < c := by
    have hsmall : Scalar.epsilon * c < 1 := by
      nlinarith [Scalar.epsilon_pos, Scalar.epsilon_lt]
    rw [← mul_assoc]
    exact mul_lt_of_lt_one_left hc hsmall
  simpa [Memory.admissible, dotProduct, Vec.get_eq_getElem] using hlt

theorem not_admissible_number : Memory.admissible (⟨#v[1], #v[-1]⟩ : Pair ℝ 1) = false := by
  have hpos := Scalar.epsilon_pos
  simp [Memory.admissible, dotProduct, Vec.get_eq_getElem]
  linarith

theorem answers_evicting : ∃ (m : Store ℝ) (offered : List ((k : Nat) × Pair ℝ k)), Served ⟨m, 1, offered⟩ ∧
    offered.length = 3 ∧ m.memory.pairs.map (Sigma.mk m.width) = [⟨1, ⟨#v[1], #v[2]⟩⟩] ∧
      m.memory.factor = m.memory.computeFactor := by
  let start : Ledger ℝ := ⟨empty 1 1, 1, []⟩
  let one := start.after (.push (⟨#v[1], #v[1]⟩ : Pair ℝ 1))
  let two := (one.after (.solve (.ofVector #v[1, 1]))).after (.push (⟨#v[1], #v[2]⟩ : Pair ℝ 1))
  let three := two.after (.push (⟨#v[1], #v[-1]⟩ : Pair ℝ 1))
  have hstart : Served start := @Served.made ℝ _ 1 1 (empty 1 1) rfl
  have hone : Served one := .step hstart fun _ => rfl
  have htwo : Served two := by
    refine .step (.step hone trivial) fun _ => ?_
    exact (width_push (m := start.store) _ _).symm
  have hthree : Served three := by
    refine .step htwo fun hadmissible => ?_
    rw [not_admissible_number] at hadmissible
    cases hadmissible
  have hoffered : [(⟨1, ⟨#v[1], #v[1]⟩⟩ : (k : Nat) × Pair ℝ k), ⟨1, ⟨#v[1], #v[2]⟩⟩, ⟨1, ⟨#v[1], #v[-1]⟩⟩].filter
      (fun e => Memory.admissible e.2) = [⟨1, ⟨#v[1], #v[1]⟩⟩, ⟨1, ⟨#v[1], #v[2]⟩⟩] := by
    simp [admissible_number, not_admissible_number]
  obtain ⟨hpairs, -, -, -, -, -, -, -, -, hfactor, -⟩ := Served.answers hthree
  refine ⟨three.store, _, hthree, rfl, hpairs.trans ?_, hfactor⟩
  exact (congrArg (List.rtake · 1) hoffered).trans rfl

end Ledger

end Store

end BoxBfgs
