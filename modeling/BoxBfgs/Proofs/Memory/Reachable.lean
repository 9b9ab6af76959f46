import BoxBfgs.Proofs.Memory.Update
import BoxBfgs.Store

namespace BoxBfgs.Memory

open Matrix

variable {n : Nat}

noncomputable def products (a b : Pair ℝ n → Vector ℝ n) (pairs : List (Pair ℝ n)) : List (List ℝ) :=
  pairs.map fun p => pairs.map fun q => Vec.dot (a p) (b q)

/-- The scaling that the newest pair gives. -/
noncomputable def scaling (pairs : List (Pair ℝ n)) : ℝ :=
  match pairs.getLast? with
  | none => 1
  | some p => (p.y.get ⬝ᵥ p.y.get) / (p.y.get ⬝ᵥ p.s.get)

/-- What a memory keeps besides its pairs is what the pairs give. -/
structure Sound (m : Memory ℝ n) : Prop where
  admissible : ∀ p ∈ m.pairs, admissible p = true
  sty : m.sty = products Pair.s Pair.y m.pairs
  sts : m.sts = products Pair.s Pair.s m.pairs
  theta : m.theta = scaling m.pairs
  cached : ∀ f, m.cached = some f → Factor.ofMatrix m.middle = .ok f

/-- The memories that pushes, clearings and changes of the size lead to, with factors kept in between. -/
inductive Reachable : {n : Nat} → Memory ℝ n → Prop
  | empty {n depth : Nat} (hd : 1 ≤ depth ∧ depth ≤ maxDepth) : Reachable (empty n depth)
  | push {n : Nat} {m m' : Memory ℝ n} {p : Pair ℝ n} (h : Reachable m) (hp : m.push p = .stored m') : Reachable m'
  | clear {n : Nat} {m : Memory ℝ n} (h : Reachable m) : Reachable m.clear
  | resize {n : Nat} {m : Memory ℝ n} {k depth : Nat} (h : Reachable m) (hd : 1 ≤ depth ∧ depth ≤ maxDepth) :
      Reachable (renew (some ⟨n, m⟩) k depth)
  | keepFactor {n : Nat} {m : Memory ℝ n} (h : Reachable m) : Reachable m.keepFactor

theorem curvature_pos {p : Pair ℝ n} (h : admissible p = true) : 0 < p.curvature := by
  simp only [admissible, Scalar.isFinite_real, Bool.and_self, Bool.true_and, decide_eq_true_eq, Vec.dot_real] at h
  have hy : 0 ≤ p.y.get ⬝ᵥ p.y.get := Finset.sum_nonneg fun i _ => mul_self_nonneg _
  exact (mul_nonneg Scalar.epsilon_pos.le hy).trans_lt h

theorem scaling_pos {pairs : List (Pair ℝ n)} (h : ∀ p ∈ pairs, 0 < p.curvature) : 0 < scaling pairs := by
  rw [scaling]
  cases hl : pairs.getLast? with
  | none => exact one_pos
  | some p =>
      have hp := h p (List.mem_of_getLast? hl)
      refine div_pos (dotProduct_self_pos (Pair.y_ne_zero hp)) ?_
      rwa [dotProduct_comm]

theorem products_drop (a b : Pair ℝ n → Vector ℝ n) (pairs : List (Pair ℝ n)) :
    ((products a b pairs).drop 1).map (List.drop 1) = products a b (pairs.drop 1) := by
  simp only [products, ← List.map_drop, List.map_map, Function.comp_def]

theorem products_append (a b : Pair ℝ n → Vector ℝ n) (pairs : List (Pair ℝ n)) (p : Pair ℝ n) :
    products a b (pairs ++ [p]) =
      (products a b pairs).zipWith (fun row c => row ++ [c]) (pairs.map fun q => Vec.dot (a q) (b p)) ++
        [(pairs ++ [p]).map fun q => Vec.dot (a p) (b q)] := by
  rw [products, List.map_append, products, List.zipWith_map, List.zipWith_self]
  simp

theorem dot_comm (x y : Vector ℝ n) : Vec.dot x y = Vec.dot y x := by
  rw [Vec.dot_real, Vec.dot_real, dotProduct_comm]

theorem fresh_sound (depth : Int) (capacity : Nat) : ({ depth, capacity, theta := 1 } : Memory ℝ n).Sound where
  admissible p hp := by simp at hp
  sty := rfl
  sts := rfl
  theta := rfl
  cached f hf := by simp at hf

theorem append_sound {m : Memory ℝ n} {p : Pair ℝ n} (hm : ∀ q ∈ m.pairs, admissible q = true)
    (hsty : m.sty = products Pair.s Pair.y m.pairs) (hsts : m.sts = products Pair.s Pair.s m.pairs)
    (hp : admissible p = true) : (m.append p).Sound where
  admissible q hq := by
    rcases List.mem_append.mp hq with hq | hq
    · exact hm q hq
    · rw [List.mem_singleton.mp hq, hp]
  sty := by
    have hrow : ((m.pairs ++ [p]).map fun q => Vec.dot q.y p.s) = (m.pairs ++ [p]).map fun q => Vec.dot p.s q.y :=
      List.map_congr_left fun q _ => dot_comm _ _
    simp only [append]
    rw [products_append, hsty, hrow]
  sts := by
    have hrow : ((m.pairs ++ [p]).map fun q => Vec.dot q.s p.s) = (m.pairs ++ [p]).map fun q => Vec.dot p.s q.s :=
      List.map_congr_left fun q _ => dot_comm _ _
    have hlen : (products Pair.s Pair.s m.pairs).length = (m.pairs.map fun q => Vec.dot q.s p.s).length := by
      simp [products]
    simp only [append]
    rw [products_append, hsts, ← hrow, List.map_append]
    congr 1
    rw [← List.append_nil (products Pair.s Pair.s m.pairs), List.zipWith_append (by simpa using hlen),
      List.append_nil]
    simp
  theta := by simp [append, scaling]
  cached f hf := by simp [append] at hf

section

variable {α : Type} [Scalar α] {m m' : Memory α n} {p : Pair α n}

theorem push_stored (h : m.push p = .stored m') :
    admissible p = true ∧ (if m.size = m.depth then m.dropOldest else m).size < m.capacity ∧
      m' = (if m.size = m.depth then m.dropOldest else m).append p := by
  have hcapacity : (if m.size = m.depth then m.dropOldest else m).capacity = m.capacity := by
    split <;> rfl
  simp only [push] at h
  generalize (if m.size = m.depth then m.dropOldest else m) = kept at h hcapacity
  split_ifs at h with hp hroom
  cases h
  exact ⟨by simpa using hp, hcapacity ▸ hroom, rfl⟩

theorem push_refused (h : m.push p = .refused) : admissible p = false := by
  simp only [push] at h
  generalize (if m.size = m.depth then m.dropOldest else m) = kept at h
  split_ifs at h with hp
  simpa using hp

end

theorem push_sound {m m' : Memory ℝ n} {p : Pair ℝ n} (h : m.Sound) (hp : m.push p = .stored m') : m'.Sound := by
  obtain ⟨hadm, -, rfl⟩ := push_stored hp
  split_ifs with hfull
  · refine append_sound (fun q hq => h.admissible q (List.mem_of_mem_drop hq)) ?_ ?_ hadm
    · rw [dropOldest, h.sty]
      exact products_drop _ _ _
    · rw [dropOldest, h.sts]
      exact products_drop _ _ _
  · exact append_sound h.admissible h.sty h.sts hadm

namespace Sound

variable {m : Memory ℝ n}

theorem curvature_pos (h : m.Sound) (j : Fin m.size) : 0 < (m.pairs.get j).curvature :=
  Memory.curvature_pos (h.admissible _ (List.get_mem _ _))

theorem theta_pos (h : m.Sound) : 0 < m.theta := by
  rw [h.theta]
  exact scaling_pos fun p hp => Memory.curvature_pos (h.admissible p hp)

/-- A factor at hand is that of the present middle matrix, as if it were computed anew. -/
theorem factor_eq_computeFactor (h : m.Sound) : m.factor = m.computeFactor := by
  rw [factor]
  split
  · rename_i f hf
    rw [computeFactor, if_pos (by simpa using h.theta_pos), h.cached f hf]
  · rfl

theorem factor_eq_ok (h : m.Sound) {f : Factor ℝ (m.size + m.size)} :
    m.factor = .ok f ↔ Factor.ofMatrix m.middle = .ok f := by
  rw [h.factor_eq_computeFactor, computeFactor, if_pos (by simpa using h.theta_pos)]
  cases Factor.ofMatrix m.middle with
  | ok g => rw [Except.ok.injEq, Except.ok.injEq]
  | error why => exact iff_of_false (by simp) (by simp)

end Sound

theorem cache_sound {m : Memory ℝ n} (h : m.Sound) {f : Factor ℝ (m.pairs.length + m.pairs.length)}
    (hf : Factor.ofMatrix m.middle = .ok f) : ({ m with cached := some f } : Memory ℝ n).Sound where
  admissible := h.admissible
  sty := h.sty
  sts := h.sts
  theta := h.theta
  cached g hg := by
    cases hg
    exact hf

theorem keepFactor_sound {m : Memory ℝ n} (h : m.Sound) : m.keepFactor.Sound := by
  rw [keepFactor]
  split_ifs with he
  · exact h
  · split
    · rename_i f hf
      exact cache_sound h (h.factor_eq_ok.mp hf)
    · exact h

theorem renew_sound (old : Option ((k : Nat) × Memory ℝ k)) (n depth : Nat) : (renew old n depth).Sound := by
  have hempty : (empty n depth : Memory ℝ n).Sound := fresh_sound _ _
  simp only [renew]
  match old with
  | none => exact hempty
  | some ⟨k, m⟩ =>
      simp only
      split_ifs with hk hd
      · subst hk
        exact fresh_sound _ _
      · exact hempty
      · exact hempty

theorem Reachable.sound {m : Memory ℝ n} (h : m.Reachable) : m.Sound := by
  induction h with
  | empty hd => exact fresh_sound _ _
  | push h hp ih => exact push_sound ih hp
  | clear h ih => exact fresh_sound _ _
  | resize h hd ih => exact renew_sound _ _ _
  | keepFactor h ih => exact keepFactor_sound ih

end BoxBfgs.Memory
