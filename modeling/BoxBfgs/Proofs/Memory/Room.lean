import BoxBfgs.Proofs.Run.Storage

namespace BoxBfgs

namespace Room

section

variable {α : Type} {n k : Nat} {f g : Nat → Nat → α}

theorem square_congr (h : ∀ i < k, ∀ j < k, f i j = g i j) : square k f = square k g :=
  List.map_congr_left fun i hi => List.map_congr_left fun j hj => h i (List.mem_range.mp hi) j (List.mem_range.mp hj)

theorem take_square {c : Nat} (h : k ≤ c) : ((square c f).take k).map (List.take k) = square k f := by
  simp only [square, ← List.map_take, List.take_range, List.map_map, Function.comp_def, Nat.min_eq_left h]

theorem drop_square (c : Nat) (f : Nat → Nat → α) :
    ((square c f).drop 1).map (List.drop 1) = square (c - 1) fun i j => f (i + 1) (j + 1) := by
  have hrange : (List.range c).drop 1 = (List.range (c - 1)).map (· + 1) :=
    List.ext_getElem (by simp) fun i _ _ => by simp [Nat.add_comm 1 i]
  simp only [square, ← List.map_drop, hrange, List.map_map, Function.comp_def]

/-- A square bordered by one more row and column. Of the column only the part beside the square is taken. -/
theorem square_succ {rows : List (List α)} {row column : List α} (hrows : square k g = rows)
    (hinner : ∀ i < k, ∀ j < k, f i j = g i j) (hcolumn : column.take k = (List.range k).map fun i => f i k)
    (hrow : row = (List.range (k + 1)).map (f k)) :
    square (k + 1) f = rows.zipWith (fun row a => row ++ [a]) column ++ [row] := by
  have hlength : rows.length = k := by simp [← hrows, square]
  have htaken : rows.zipWith (fun row a => row ++ [a]) column =
      rows.zipWith (fun row a => row ++ [a]) (column.take k) := by
    have htake : (rows.zipWith (fun row a => row ++ [a]) column).take k =
        (rows.take k).zipWith (fun row a => row ++ [a]) (column.take k) := List.take_zipWith
    rwa [List.take_of_length_le hlength.le, List.take_of_length_le (by simp [hlength])] at htake
  have hbordered : (square k g).zipWith (fun row a => row ++ [a]) ((List.range k).map fun i => f i k) =
      (List.range k).map fun i => (List.range k).map (f i) ++ [f i k] := by
    rw [← square_congr hinner]
    exact List.ext_getElem (by simp [square]) fun i _ _ => by simp [square]
  rw [htaken, hcolumn, ← hrows, hrow, hbordered, square, List.range_succ, List.map_append, List.map_singleton]
  congr 1
  exact List.map_congr_left fun i _ => by rw [List.map_append, List.map_singleton]

theorem take_eq_map {β : Type} {l : List β} (h : k ≤ l.length) (d : β) :
    l.take k = (List.range k).map fun i => (l[i]?).getD d := by
  refine List.ext_getElem (by simpa using h) fun i hi _ => ?_
  rw [List.length_take_of_le h] at hi
  simp [hi.trans_le h]

end

variable {α : Type} [Scalar α] {n : Nat}

theorem product_square {c i j : Nat} (f : Nat → Nat → α) (hi : i < c) (hj : j < c) :
    Memory.product (square c f) i j = f i j := by
  simp [Memory.product, square, hi, hj]

/-- Entries moved one place on are those of the square without its first row and column. -/
theorem square_moved {c : Nat} {entries rows : List (List α)} (h : square c (Memory.product entries) = rows) :
    square (c - 1) (Memory.product (square c fun i j =>
      if i + 1 < c && j + 1 < c then Memory.product entries (i + 1) (j + 1) else Memory.product entries i j)) =
        (rows.drop 1).map (List.drop 1) := by
  rw [← h, drop_square]
  refine square_congr fun i hi j hj => (product_square _ (by omega) (by omega)).trans ?_
  have hi' : i + 1 < c := by omega
  have hj' : j + 1 < c := by omega
  simp [hi', hj']

/-- Entries with a row and a column written behind the first `k` are those of the bordered square. -/
theorem square_written {c : Nat} {entries rows : List (List α)} {row column : List α} {atRow atColumn : Nat → α}
    (hk : k < c) (h : square k (Memory.product entries) = rows)
    (hcolumn : column.take k = (List.range k).map atColumn) (hrow : row = (List.range (k + 1)).map atRow) :
    square (k + 1) (Memory.product (square c fun i j =>
      if i = k && j ≤ k then atRow j
      else if j = k && i < k then atColumn i
      else Memory.product entries i j)) = rows.zipWith (fun row a => row ++ [a]) column ++ [row] := by
  refine square_succ h (fun i hi j hj => ?_) (hcolumn.trans (List.map_congr_left fun i hi => ?_))
    (hrow.trans (List.map_congr_left fun j hj => ?_))
  · exact (product_square _ (hi.trans hk) (hj.trans hk)).trans (by simp [hi.ne, hj.ne])
  · have hlt := List.mem_range.mp hi
    exact ((product_square _ (hlt.trans hk) hk).trans (by simp [hlt, hlt.ne])).symm
  · have hle := Nat.le_of_lt_succ (List.mem_range.mp hj)
    exact ((product_square _ hk (hle.trans_lt hk)).trans (by simp [hle])).symm

/-- Room for the same number of pairs, rows and columns. -/
structure Shaped (r : Room α n) : Prop where
  sty : r.sty = square r.capacity (Memory.product r.sty)
  sts : r.sts = square r.capacity (Memory.product r.sts)

/-- The places of the pairs that a memory counts hold what it holds. Nothing is said of the others. -/
structure Holds (r : Room α n) (m : Memory α n) : Prop where
  depth : m.depth = r.capacity
  capacity : m.capacity = r.capacity
  size : m.size ≤ r.capacity
  pairs : r.pairs.take m.size = m.pairs
  sty : square m.size (Memory.product r.sty) = m.sty
  sts : square m.size (Memory.product r.sts) = m.sts

section

variable (r : Room α n)

theorem Shaped.of_square {r : Room α n} {c : Nat} {f g : Nat → Nat → α} (hc : r.capacity = c)
    (hsty : r.sty = square c f) (hsts : r.sts = square c g) : r.Shaped where
  sty := by
    rw [hc, hsty]
    exact square_congr fun _ hi _ hj => (product_square f hi hj).symm
  sts := by
    rw [hc, hsts]
    exact square_congr fun _ hi _ hj => (product_square g hi hj).symm

theorem capacity_empty (n c : Nat) : (empty n c : Room α n).capacity = c := List.length_replicate

theorem empty_shaped (n c : Nat) : (empty n c : Room α n).Shaped := by
  have hzeros : List.replicate c (List.replicate c (0 : α)) = square c fun _ _ => 0 := by
    simp only [square, List.map_const', List.length_range]
  exact .of_square (capacity_empty n c) hzeros hzeros

theorem capacity_shift : r.shift.capacity = r.capacity := by
  have hlength : r.shift.capacity = (r.pairs.drop 1 ++ r.pairs.drop (r.pairs.length - 1)).length := rfl
  rw [hlength, List.length_append, List.length_drop, List.length_drop, capacity]
  omega

theorem capacity_write (k : Nat) (p : Pair α n) : (r.write k p).capacity = r.capacity := List.length_set

theorem write_shaped (k : Nat) (p : Pair α n) : (r.write k p).Shaped := .of_square (r.capacity_write k p) rfl rfl

end

variable {r : Room α n} {m : Memory α n}

/-- Reading a memory from its room gives the memory back. -/
theorem Holds.fill (h : r.Holds m) (hr : r.Shaped) : r.fill m = m := by
  have hsty : (r.sty.take m.size).map (List.take m.size) = m.sty := by
    rw [hr.sty, take_square h.size, h.sty]
  have hsts : (r.sts.take m.size).map (List.take m.size) = m.sts := by
    rw [hr.sts, take_square h.size, h.sts]
  rw [Room.fill, dif_pos h.size]
  have hpairs := h.pairs
  obtain ⟨depth, capacity, pairs, sty, sts, theta, cached⟩ := m
  dsimp only at hpairs hsty hsts ⊢
  simp only [hsty, hsts]
  -- With the pairs in place of what was read, nothing is left of the cast.
  have hcast {l : List (Pair α n)} (hl : l = pairs)
      (hfactor : Factor α (pairs.length + pairs.length) = Factor α (l.length + l.length)) :
      ({ depth, capacity, pairs := l, sty, sts, theta, cached := cached.map (cast hfactor) } : Memory α n) =
        { depth, capacity, pairs, sty, sts, theta, cached } := by
    subst hl
    cases cached <;> rfl
  exact hcast hpairs _

/-- Making place for a pair drops the oldest one. -/
theorem Holds.shift (h : r.Holds m) (hfull : m.size = r.capacity) : r.shift.Holds m.dropOldest := by
  have hsize : m.dropOldest.size = r.capacity - 1 := by
    rw [← hfull]
    exact List.length_drop
  have hpairs := h.pairs
  have hsty := h.sty
  have hsts := h.sts
  rw [hfull] at hpairs hsty hsts
  refine { depth := ?_, capacity := ?_, size := ?_, pairs := ?_, sty := ?_, sts := ?_ }
  · rw [capacity_shift]
    exact h.depth
  · rw [capacity_shift]
    exact h.capacity
  · rw [capacity_shift, hsize]
    exact Nat.sub_le _ _
  · have htake : r.shift.pairs.take (r.capacity - 1) = r.pairs.drop 1 := List.take_left' List.length_drop
    rw [hsize, htake, ← List.take_length (l := r.pairs), hpairs]
    rfl
  · rw [hsize]
    exact square_moved hsty
  · rw [hsize]
    exact square_moved hsts

/-- The pairs with one more in place `k`. -/
def written (r : Room α n) (k : Nat) (p : Pair α n) (i : Nat) : Pair α n := if i = k then p else (r.pairs[i]?).getD p

theorem Holds.pairs_eq (h : r.Holds m) (p : Pair α n) : m.pairs = (List.range m.size).map (r.written m.size p) := by
  refine h.pairs.symm.trans ((take_eq_map h.size p).trans (List.map_congr_left fun i hi => ?_))
  exact (if_neg (List.mem_range.mp hi).ne).symm

theorem Holds.append_eq (h : r.Holds m) (p : Pair α n) :
    m.pairs ++ [p] = (List.range (m.size + 1)).map (r.written m.size p) := by
  have hlast : r.written m.size p m.size = p := if_pos rfl
  rw [List.range_succ, List.map_append, ← h.pairs_eq, List.map_singleton, hlast]

/-- A pair written behind those that are stored is one more of them. -/
theorem Holds.write (h : r.Holds m) (hroom : m.size < r.capacity) (p : Pair α n) :
    (r.write m.size p).Holds (m.append p) := by
  have hsize : (m.append p).size = m.size + 1 := List.length_append
  have htake : (r.pairs.set m.size p).take (m.size + 1) = m.pairs ++ [p] := by
    rw [List.take_add_one, List.take_set_of_le le_rfl, h.pairs, List.getElem?_set_self hroom, Option.toList_some]
  refine { depth := ?_, capacity := ?_, size := ?_, pairs := ?_, sty := ?_, sts := ?_ }
  · rw [capacity_write]
    exact h.depth
  · rw [capacity_write]
    exact h.capacity
  · rw [capacity_write, hsize]
    exact hroom
  · rw [hsize]
    exact htake
  · rw [hsize]
    refine square_written hroom h.sty ?_ ?_
    · rw [List.take_of_length_le (List.length_map _).le, h.pairs_eq p, List.map_map]
      rfl
    · rw [h.append_eq p, List.map_map]
      rfl
  · rw [hsize]
    refine square_written hroom h.sts ?_ ?_
    · rw [List.map_append, List.take_left' (List.length_map _), h.pairs_eq p, List.map_map]
      rfl
    · rw [h.append_eq p, List.map_map]
      rfl

/-- Room with a pair stored behind those of a memory, in the place of the oldest one when the memory is full. -/
def store (r : Room α n) (m : Memory α n) : Option (Pair α n) → Room α n
  | none => r
  | some p => if m.size = m.depth then r.shift.write (m.size - 1) p else r.write m.size p

theorem store_shaped (hr : r.Shaped) (m : Memory α n) (p : Option (Pair α n)) : (r.store m p).Shaped := by
  cases p with
  | none => exact hr
  | some p =>
      rw [store]
      split
      · exact write_shaped _ _ _
      · exact write_shaped _ _ _

/-- A memory without pairs is held by whatever was left in room of its size. -/
theorem holds_nil (hdepth : m.depth = r.capacity) (hcapacity : m.capacity = r.capacity) (hpairs : m.pairs = [])
    (hsty : m.sty = []) (hsts : m.sts = []) : r.Holds m := by
  have hsize : m.size = 0 := congrArg List.length hpairs
  exact { depth := hdepth, capacity := hcapacity, size := hsize.trans_le (Nat.zero_le _)
          pairs := by rw [hsize, hpairs]; rfl
          sty := by rw [hsize, hsty]; rfl
          sts := by rw [hsize, hsts]; rfl }

/-- Whatever becomes of a memory in one step, its room holds it, once the pair is stored that the memory stores. -/
theorem Holds.turned {m' : Memory α n} {p : Option (Pair α n)} (h : r.Holds m) (ht : m.Turned p m') :
    (r.store m p).Holds m' := by
  cases ht with
  | kept => exact h
  | factored =>
      rw [Memory.keepFactor]
      split
      · exact h
      · split
        · exact ⟨h.depth, h.capacity, h.size, h.pairs, h.sty, h.sts⟩
        · exact h
  | cleared => exact holds_nil h.depth h.capacity rfl rfl rfl
  | pushed hp =>
      obtain ⟨-, hroom, rfl⟩ := Memory.push_stored hp
      rw [store]
      split at hroom
      · rename_i hfull
        have hsize : m.dropOldest.size = m.size - 1 := List.length_drop
        have hcapacity : m.size = r.capacity := by exact_mod_cast hfull.trans h.depth
        rw [if_pos hfull, if_pos hfull, ← hsize]
        refine (h.shift hcapacity).write ?_ _
        rw [capacity_shift, ← h.capacity]
        exact hroom
      · rename_i hfull
        rw [if_neg hfull, if_neg hfull]
        exact h.write (h.capacity ▸ hroom) _

end Room

end BoxBfgs
