import BoxBfgs.Proofs.Memory.Reachable
import BoxBfgs.Proofs.Run.Trace

namespace BoxBfgs

variable {α : Type} [Scalar α] {n : Nat}

/-- What becomes of a memory in one step, with the pair that is stored, if one is. -/
inductive Memory.Turned (m : Memory α n) : Option (Pair α n) → Memory α n → Prop
  | kept : Turned m none m
  | factored : Turned m none m.keepFactor
  | cleared : Turned m none m.clear
  | pushed {p : Pair α n} {m' : Memory α n} (h : m.push p = .stored m') : Turned m (some p) m'

namespace Memory

variable {m m' : Memory α n} {p : Pair α n}

@[simp] theorem depth_keepFactor (m : Memory α n) : m.keepFactor.depth = m.depth := by
  rw [keepFactor]
  split
  · rfl
  · split <;> rfl

@[simp] theorem capacity_keepFactor (m : Memory α n) : m.keepFactor.capacity = m.capacity := by
  rw [keepFactor]
  split
  · rfl
  · split <;> rfl

theorem clear_keepFactor (m : Memory α n) : m.keepFactor.clear = m.clear := by
  simp [clear]

@[simp] theorem depth_renew (old : Option ((n : Nat) × Memory α n)) (n depth : Nat) :
    (renew old n depth).depth = depth := by
  cases old with
  | none => rfl
  | some m =>
      obtain ⟨k, m⟩ := m
      rw [renew]
      split_ifs with hk hdepth
      · subst hk
        exact hdepth
      · rfl
      · rfl

/-- No step changes what a memory is meant to hold, and what it has room for. -/
theorem Turned.sizes {q : Option (Pair α n)} (h : m.Turned q m') : m'.depth = m.depth ∧ m'.capacity = m.capacity := by
  cases h with
  | kept | cleared => exact ⟨rfl, rfl⟩
  | factored => exact ⟨depth_keepFactor m, capacity_keepFactor m⟩
  | pushed h =>
      obtain ⟨-, -, rfl⟩ := push_stored h
      split <;> exact ⟨rfl, rfl⟩

end Memory

namespace Run

variable {κ : Type} (s : Setup α κ n)

/-- The pair that a step from one state to another stores, if it stores one. -/
def stored? (st st' : State α κ n) : Option (Pair α n) :=
  match st.phase, st'.phase with
  | .search it _, .check it' =>
      let p : Pair α n := ⟨it'.point.x - it.point.x, it'.point.g - it.point.g⟩
      if Memory.admissible p then some p else none
  | _, _ => none

variable {s} {it : Iterate α n} {p : Progress α n} {w : World α κ}

theorem breakdown_memory (why : Obstacle α) : it.memory.Turned none (breakdown s it why p w).phase.memory := by
  rw [breakdown]
  split
  · exact .kept
  · exact .cleared

theorem unsolved_memory (why : Unsolved α) : it.memory.Turned none (unsolved s it why p w).phase.memory := by
  cases why with
  | breakdown why => exact breakdown_memory _
  | nonFinite => exact .kept

theorem cauchy_memory : it.memory.Turned none (cauchy s it p w).phase.memory := by
  have hunsolved (why : Unsolved α) :
      it.memory.Turned none (unsolved s { it with memory := it.memory.keepFactor } why p w).phase.memory := by
    cases why with
    | nonFinite => exact .factored
    | breakdown why =>
        simp only [unsolved, breakdown]
        split
        · exact .factored
        · exact Memory.clear_keepFactor it.memory ▸ .cleared
  rw [cauchy]
  split
  · exact .kept
  · dsimp only
    split
    · exact hunsolved _
    · exact .factored

theorem subspace_memory (c : Option (CauchyPoint α n it.memory.size)) :
    it.memory.Turned none (subspace s it c p w).phase.memory := by
  cases c with
  | none => exact .kept
  | some c =>
      simp only [subspace]
      split
      · exact unsolved_memory _
      · exact .kept

theorem checking_memory : (checking s it p w).phase.memory = it.memory := by
  rw [checking_eq]
  generalize reported s it p w = r
  obtain ⟨r, p', w'⟩ := r
  cases r with
  | error why => rfl
  | ok _ =>
      simp only [judged]
      split <;> rfl

section

variable {d : Vector α n} {q : Progress α n} {v : World α κ}

theorem stored?_of_not_check {st' : State α κ n} (h : st'.phase.iterate? = none) {st : State α κ n} :
    stored? st st' = none := by
  rw [stored?]
  split
  · rename_i hcheck
    rw [hcheck] at h
    cases h
  · rfl

theorem breakdown_stored? (why : Obstacle α) {st : State α κ n} : stored? st (breakdown s it why q v) = none := by
  refine stored?_of_not_check ?_
  rw [breakdown]
  split <;> rfl

theorem rejected_memory (outcome : Outcome) {st : State α κ n} :
    it.memory.Turned (stored? st (rejected s it outcome q v)) (rejected s it outcome q v).phase.memory := by
  have hnone : (rejected s it outcome q v).phase.iterate? = none := by
    simp only [rejected]
    split
    · rfl
    · split <;> rfl
  rw [stored?_of_not_check hnone]
  simp only [rejected]
  split
  · exact .kept
  · split
    · exact .kept
    · exact .cleared

theorem accepted_memory (outcome : Outcome) (t : α) (new : Point α n) :
    it.memory.Turned (stored? ⟨.search it d, p, w⟩ (accepted s it outcome t new q v))
      (accepted s it outcome t new q v).phase.memory := by
  simp only [accepted]
  split
  · rename_i hpush
    simp only [stored?, (Memory.push_stored hpush).1]
    exact .pushed hpush
  · rename_i hpush
    simp only [stored?, Memory.push_refused hpush]
    exact .kept
  · exact .kept

theorem searching_memory : it.memory.Turned (stored? ⟨.search it d, p, w⟩ (searching s it d p w))
    (searching s it d p w).phase.memory := by
  rw [searching_eq]
  split
  · rw [breakdown_stored?]
    exact breakdown_memory _
  · split
    · rw [breakdown_stored?]
      exact breakdown_memory _
    · generalize sought s it d p w = r
      obtain ⟨r, e, v⟩ := r
      cases r with
      | error why => exact .kept
      | ok found =>
          simp only [followed]
          split
          · exact .kept
          · exact rejected_memory _
          · exact accepted_memory _ _ _

end

theorem step_memory (st : State α κ n) : st.phase.memory.Turned (stored? st (step s st)) (step s st).phase.memory := by
  obtain ⟨phase, p, w⟩ := st
  cases phase with
  | start m => exact .cleared
  | evaluating m =>
      have hmemory : (evaluating s m p w).phase.memory = m := by
        rw [evaluating]
        split <;> rfl
      have hkept : m.Turned none (evaluating s m p w).phase.memory := hmemory.symm ▸ .kept
      exact hkept
  | check it =>
      have hmemory : (checking s it p w).phase.memory = it.memory := checking_memory
      have hkept : it.memory.Turned none (checking s it p w).phase.memory := hmemory.symm ▸ .kept
      exact hkept
  | cauchy it => exact cauchy_memory
  | subspace it c => exact subspace_memory c
  | search it d => exact searching_memory
  | ended | escaped => exact .kept

/-- What holds of the memory of a run and is kept by whatever a step does to it holds throughout. -/
theorem after_memory {P : Memory α n → Prop} {m : Memory α n} (hm : P m)
    (hturned : ∀ {m m' : Memory α n} {p : Option (Pair α n)}, m.Turned p m' → P m → P m') (w : World α κ) (k : Nat) :
    P (after s m w k).phase.memory := by
  induction k with
  | zero => exact hm
  | succ k ih =>
      rw [after_succ]
      exact hturned (step_memory _) ih

end Run

end BoxBfgs
