import BoxBfgs.Proofs.Run.Storage
import BoxBfgs.Proofs.Run.Tandem

namespace BoxBfgs

variable {α κ : Type} {n : Nat}

/-- Whether the memory is given up with what a note tells of. -/
def Note.flushes : Note α → Bool
  | .reset _ | .failed _ => true
  | .warned _ _ => false

/-- What there is to tell of a search: that it failed, or that it accepted a point with a warning. -/
def Found.note? {P : Type} (f : Found α P) : Option (Note α) :=
  if f.accepted then if f.warned then some (.warned f.outcome f.step) else none else some (.failed f.outcome)

namespace Memory

variable [Scalar α] {m m' : Memory α n}

@[simp] theorem size_keepFactor (m : Memory α n) : m.keepFactor.size = m.size := by
  rw [keepFactor]
  split
  · rfl
  · split <;> rfl

omit [Scalar α] in
theorem size_of_isEmpty (h : m.isEmpty = true) : m.size = 0 := by
  rw [size, List.isEmpty_iff.mp h, List.length_nil]

theorem Turned.size_le {q : Option (Pair α n)} (h : m.Turned q m') : m'.size ≤ m.size + q.toList.length := by
  cases h with
  | kept => exact le_rfl
  | factored => exact (size_keepFactor m).le
  | cleared => exact Nat.zero_le _
  | pushed h =>
      obtain ⟨-, -, rfl⟩ := push_stored h
      have hkept : (if m.size = m.depth then m.dropOldest else m).size ≤ m.size := by
        split
        · simp [size, dropOldest]
        · exact le_rfl
      simpa [size, append] using hkept

end Memory

namespace Run

variable [Scalar α]

section

variable (s : Setup α κ n)

/-- What keeps a state from a Cauchy point, from a direction or from going along it, if anything does. -/
def obstacle? (st : State α κ n) : Option (Obstacle α) :=
  match st.phase with
  | .cauchy it =>
      if s.bounds.unconstrained then none
      else
        match Cauchy.point s.bounds.toBox it.memory.keepFactor it.point.x it.point.g with
        | .error (.breakdown why) => some (.breakdown why)
        | _ => none
  | .subspace it (some c) =>
      match Subspace.minimize s.bounds.toBox it.memory it.point.x it.point.g c with
      | .error (.breakdown why) => some (.breakdown why)
      | _ => none
  | .search it d =>
      let slope := Vec.dot it.point.g d
      if !(slope < 0 && Scalar.isFinite slope) then some (.ascent slope)
      else if longestStep s it.point.x d ≤ 0 then some .blocked
      else none
  | _ => none

/-- What happens in a step that has to be told: the memory is reset, a search fails, or a search accepts a point with a
warning. Only a memory that holds something can be reset. -/
def event? (st : State α κ n) : Option (Note α) :=
  match obstacle? s st with
  | some why => if st.phase.memory.isEmpty then none else some (.reset why)
  | none => (search? s st).bind fun f => f.found.note?

/-- The record that a step makes: of an iterate that is looked at, unless it is the first one or found to be faulty. -/
def record? (st : State α κ n) : Option (Record α) :=
  match st.phase with
  | .check it => it.previous.bind fun f =>
      match if st.world.session.debug then inspect s it else .ok () with
      | .error _ => none
      | .ok () => some (report it f (s.bounds.projectedGradientNorm it.point.x it.point.g) st.progress)
  | _ => none

variable (m : Memory α n) (w : World α κ)

/-- The events of the first steps of a run. -/
def events (k : Nat) : List (Note α) := (List.range k).filterMap fun i => event? s (after s m w i)

def records (k : Nat) : List (Record α) := (List.range k).filterMap fun i => record? s (after s m w i)

theorem events_succ (k : Nat) : events s m w (k + 1) = events s m w k ++ (event? s (after s m w k)).toList :=
  filterMap_range_succ _ _

theorem records_succ (k : Nat) : records s m w (k + 1) = records s m w k ++ (record? s (after s m w k)).toList :=
  filterMap_range_succ _ _

/-- How many iterates were accepted since the memory was given up last, in the first steps of a run. -/
def unflushed : Nat → Nat
  | 0 => 0
  | k + 1 =>
      if (event? s (after s m w k)).any Note.flushes then 0
      else unflushed k + if (search? s (after s m w k)).any fun f => f.found.accepted then 1 else 0

end

variable {s : Setup α κ n} {it : Iterate α n} {d : Vector α n} {p : Progress α n} {w : World α κ} {st : State α κ n}

theorem event?_of_iterate (h : st.phase.iterate? = some it) : event? s st = none := by
  obtain ⟨phase, p, w⟩ := st
  obtain rfl := Phase.iterate?_eq_some.mp h
  rfl

theorem record?_of_iterate (h : st.phase.iterate? = none) : record? s st = none := by
  obtain ⟨phase, p, w⟩ := st
  cases phase with
  | check it => cases h
  | start | evaluating | cauchy | subspace | search | ended | escaped => rfl

theorem record?_eq_some {r : Record α} (h : record? s st = some r) : ∃ it f, st.phase = .check it ∧
    it.previous = some f ∧ r = report it f (s.bounds.projectedGradientNorm it.point.x it.point.g) st.progress := by
  obtain ⟨phase, p, w⟩ := st
  cases phase with
  | check it =>
      obtain ⟨f, hf, h⟩ := Option.bind_eq_some_iff.mp h
      dsimp only at h
      split at h
      · cases h
      · cases h
        exact ⟨it, f, rfl, hf, rfl⟩
  | start | evaluating | cauchy | subspace | search | ended | escaped => cases h

/-- What a step that shows nothing makes of what is to be told, if the run goes on: the event is noted, and if it is one
that the memory does not outlast, then nothing is left of the memory. -/
structure Heeds (p : Progress α n) (e : Option (Note α)) (st : State α κ n) : Prop where
  history : st.progress.history = p.history
  notes : st.phase.final = false → st.progress.notes = p.notes ++ e.toList
  flushed : st.phase.final = false → (∃ a ∈ e, a.flushes = true) → st.phase.memory.isEmpty = true

namespace Heeds

omit [Scalar α]

theorem quiet (hhistory : st.progress.history = p.history) (hnotes : st.progress.notes = p.notes) : Heeds p none st where
  history := hhistory
  notes _ := hnotes.trans (List.append_nil _).symm
  flushed := fun _ ⟨a, ha, _⟩ => by cases ha

theorem ended {e : Option (Note α)} (hhistory : st.progress.history = p.history)
    (h : st.phase.final = true) : Heeds p e st where
  history := hhistory
  notes h' := by cases h.symm.trans h'
  flushed h' := by cases h.symm.trans h'

theorem warned {outcome : Outcome} {t : α} (hhistory : st.progress.history = p.history)
    (hnotes : st.progress.notes = p.notes ++ [.warned outcome t]) : Heeds p (some (.warned outcome t)) st where
  history := hhistory
  notes _ := hnotes
  flushed := fun _ ⟨a, ha, hflush⟩ => by
    cases ha
    cases hflush

theorem of_same {p' : Progress α n} {e : Option (Note α)} (h : Heeds p' e st) (hhistory : p'.history = p.history)
    (hnotes : p'.notes = p.notes) : Heeds p e st where
  history := h.history.trans hhistory
  notes hfinal := hnotes ▸ h.notes hfinal
  flushed := h.flushed

end Heeds

theorem breakdown_heeds (why : Obstacle α) :
    Heeds p (if it.memory.isEmpty then none else some (.reset why)) (breakdown s it why p w) := by
  cases hm : it.memory.isEmpty with
  | true =>
      rw [breakdown, hm]
      exact .ended rfl rfl
  | false =>
      rw [breakdown, hm]
      exact ⟨rfl, fun _ => rfl, fun _ _ => Memory.isEmpty_clear _⟩

theorem cauchy_heeds : Heeds p (event? s ⟨.cauchy it, p, w⟩) (cauchy s it p w) := by
  have hsearch : search? s ⟨.cauchy it, p, w⟩ = none := rfl
  rw [event?, hsearch, obstacle?, cauchy]
  dsimp only [Phase.memory]
  cases s.bounds.unconstrained with
  | true => exact .quiet rfl rfl
  | false =>
      rw [if_neg Bool.false_ne_true, if_neg Bool.false_ne_true]
      cases Cauchy.point s.bounds.toBox it.memory.keepFactor it.point.x it.point.g with
      | ok c => exact .quiet rfl rfl
      | error why =>
          cases why with
          | nonFinite => exact .ended rfl rfl
          | breakdown why =>
              let kept : Iterate α n := { it with memory := it.memory.keepFactor }
              have hkept : kept.memory.isEmpty = it.memory.isEmpty := Memory.isEmpty_keepFactor _
              have hstopped : Heeds p (if kept.memory.isEmpty then none else some (.reset (.breakdown why)))
                (breakdown s kept (.breakdown why) p w) := breakdown_heeds _
              rwa [hkept] at hstopped

theorem subspace_heeds (c : Option (CauchyPoint α n it.memory.size)) :
    Heeds p (event? s ⟨.subspace it c, p, w⟩) (subspace s it c p w) := by
  have hsearch : search? s ⟨.subspace it c, p, w⟩ = none := rfl
  cases c with
  | none => exact .quiet rfl rfl
  | some c =>
      rw [event?, hsearch, obstacle?, subspace]
      dsimp only [Phase.memory]
      cases Subspace.minimize s.bounds.toBox it.memory it.point.x it.point.g c with
      | ok step => exact .quiet rfl rfl
      | error why =>
          cases why with
          | nonFinite => exact .ended rfl rfl
          | breakdown why => exact breakdown_heeds _

theorem rejected_heeds (outcome : Outcome) : Heeds p (some (.failed outcome)) (rejected s it outcome p w) := by
  simp only [rejected]
  split
  · exact .ended rfl rfl
  · split
    · exact .ended rfl rfl
    · exact ⟨rfl, fun _ => rfl, fun _ _ => Memory.isEmpty_clear _⟩

theorem accepted_heeds (outcome : Outcome) (t : α) (new : Point α n) :
    Heeds p (if outcome = .converged then none else some (.warned outcome t)) (accepted s it outcome t new p w) := by
  rw [accepted]
  by_cases ho : outcome = .converged
  · rw [if_pos ho, if_pos ho]
    dsimp only
    split <;> exact .quiet rfl rfl
  · rw [if_neg ho, if_neg ho]
    dsimp only [note]
    split
    · exact .warned rfl rfl
    · exact .warned rfl rfl
    · exact .ended rfl rfl

theorem followed_heeds (hd : falls s it d = true) :
    Heeds p ((search? s ⟨.search it d, p, w⟩).bind fun f => f.found.note?)
      (followed s it p (sought s it d p w)) := by
  cases h : sought s it d p w with
  | mk r ew =>
      obtain ⟨e, w'⟩ := ew
      cases r with
      | error why => exact .ended rfl rfl
      | ok found =>
          rw [search?_of_ok hd h, Option.bind_some]
          simp only [followed]
          split
          · exact .ended rfl rfl
          · rename_i hnone _
            have hnote : found.note? = some (.failed found.outcome) := by simp [Found.note?, Found.accepted, hnone]
            rw [hnote]
            exact (rejected_heeds _).of_same rfl rfl
          · rename_i new hnew _
            have hnote : found.note? =
                if found.outcome = .converged then none else some (.warned found.outcome found.step) := by
              simp [Found.note?, Found.accepted, Found.warned, hnew]
            rw [hnote]
            exact (accepted_heeds _ _ _).of_same rfl rfl

theorem searching_heeds : Heeds p (event? s ⟨.search it d, p, w⟩) (searching s it d p w) := by
  rw [searching_eq, event?, obstacle?]
  dsimp only [Phase.memory]
  by_cases hslope : (!(Vec.dot it.point.g d < 0 && Scalar.isFinite (Vec.dot it.point.g d))) = true
  · rw [if_pos hslope, if_pos hslope]
    exact breakdown_heeds _
  · rw [if_neg hslope, if_neg hslope]
    by_cases hroom : longestStep s it.point.x d ≤ 0
    · rw [if_pos hroom, if_pos hroom]
      exact breakdown_heeds _
    · rw [if_neg hroom, if_neg hroom]
      exact followed_heeds (by simp_all [falls])

theorem step_heeds (h : st.phase.iterate? = none) : Heeds st.progress (event? s st) (step s st) := by
  obtain ⟨phase, p, w⟩ := st
  cases phase with
  | start m => exact .quiet rfl rfl
  | evaluating m =>
      simp only [step, evaluating]
      split <;> exact .quiet rfl rfl
  | check it => cases h
  | cauchy it => exact cauchy_heeds
  | subspace it c => exact subspace_heeds c
  | search it d => exact searching_heeds
  | ended | escaped => exact .ended rfl rfl

/-- The verdict on an iterate only decides where the run goes on. -/
theorem judged_kept (r : Except (Fault α) Unit × Progress α n × World α κ) :
    (judged s it r).progress = r.2.1 ∧ (judged s it r).world = r.2.2 := by
  obtain ⟨r, p, w⟩ := r
  cases r with
  | error why => exact ⟨rfl, rfl⟩
  | ok _ =>
      simp only [judged]
      split <;> exact ⟨rfl, rfl⟩

/-- What is written down with the record of an iterate, if one is made: the record itself, which carries the notes so
far and so uses them up. -/
theorem checking_progress : (checking s it p w).progress =
    match record? s ⟨.check it, p, w⟩ with
    | none => p
    | some r =>
        { p with notes := [], history := if s.options.keepHistory.holds then p.history ++ [r] else p.history } := by
  rw [checking_eq, (judged_kept _).1]
  cases hprevious : it.previous with
  | none => simp only [reported, record?, hprevious, Option.bind_none]
  | some f =>
      simp only [reported, record?, hprevious, Option.bind_some, record_eq]
      cases if w.session.debug then inspect s it else .ok () <;> rfl

theorem step_history (hkeep : s.options.keepHistory.holds = true) (st : State α κ n) :
    (step s st).progress.history = st.progress.history ++ (record? s st).toList := by
  cases hit : st.phase.iterate? with
  | none => rw [(step_heeds hit).history, record?_of_iterate hit, Option.toList_none, List.append_nil]
  | some it =>
      obtain ⟨phase, p, w⟩ := st
      obtain rfl := Phase.iterate?_eq_some.mp hit
      change (checking s it p w).progress.history = _
      rw [checking_progress]
      cases record? s ⟨.check it, p, w⟩ with
      | none => exact (List.append_nil _).symm
      | some r => exact if_pos hkeep

theorem step_notes (st : State α κ n) (h : (step s st).phase.final = false) : (step s st).progress.notes =
    if (record? s st).isSome then [] else st.progress.notes ++ (event? s st).toList := by
  cases hit : st.phase.iterate? with
  | none =>
      rw [(step_heeds hit).notes h, record?_of_iterate hit]
      rfl
  | some it =>
      rw [event?_of_iterate hit]
      obtain ⟨phase, p, w⟩ := st
      obtain rfl := Phase.iterate?_eq_some.mp hit
      change (checking s it p w).progress.notes = _
      rw [checking_progress]
      cases record? s ⟨.check it, p, w⟩ with
      | none => exact (List.append_nil _).symm
      | some r => rfl

theorem step_flushed {e : Note α} (he : event? s st = some e) (hflush : e.flushes = true)
    (h : (step s st).phase.final = false) : (step s st).phase.memory.isEmpty = true := by
  cases hit : st.phase.iterate? with
  | none => exact (step_heeds hit).flushed h ⟨e, he, hflush⟩
  | some it => cases (event?_of_iterate hit).symm.trans he

variable {m : Memory α n}

theorem after_history (hkeep : s.options.keepHistory.holds = true) (k : Nat) :
    (after s m w k).progress.history = records s m w k := by
  induction k with
  | zero => rfl
  | succ k ih => rw [after_succ, step_history hkeep, ih, records_succ]

theorem final_of_after_succ {k : Nat} (h : (after s m w (k + 1)).phase.final = false) :
    (after s m w k).phase.final = false := by
  by_contra hfinal
  rw [after_succ, step_of_final (Bool.not_eq_false _ ▸ hfinal)] at h
  exact hfinal h

/-- As long as a run goes on, its events are in the records, or noted for the next one. -/
theorem after_notes {k : Nat} (h : (after s m w k).phase.final = false) :
    (records s m w k).flatMap (·.notes) ++ (after s m w k).progress.notes = events s m w k := by
  induction k with
  | zero => rfl
  | succ k ih =>
      have hbefore := ih (final_of_after_succ h)
      rw [after_succ] at h ⊢
      rw [records_succ, events_succ, step_notes _ h, ← hbefore]
      cases hr : record? s (after s m w k) with
      | none => simp
      | some r =>
          -- The record takes the notes so far with it, and nothing happens while an iterate is looked at.
          obtain ⟨it, f, hphase, -, rfl⟩ := record?_eq_some hr
          rw [event?_of_iterate (by rw [hphase]; rfl)]
          simp [report]

/-- What the records up to one of them tell is what has happened so far, each event once and in its place. -/
theorem record_notes {k : Nat} {r : Record α} (h : record? s (after s m w k) = some r) :
    (records s m w k ++ [r]).flatMap (·.notes) = events s m w k := by
  obtain ⟨it, f, hphase, -, rfl⟩ := record?_eq_some h
  have hnotes := after_notes (s := s) (m := m) (w := w) (k := k) (by rw [hphase]; rfl)
  simpa [report] using hnotes

/-- Each record was made in a step of its own, after those before it. -/
theorem exists_record {k i : Nat} (hi : i < (records s m w k).length) : ∃ j < k,
    record? s (after s m w j) = some (records s m w k)[i] ∧
      (records s m w k).take (i + 1) = records s m w j ++ [(records s m w k)[i]] := by
  induction k with
  | zero => cases hi
  | succ k ih =>
      by_cases hbefore : i < (records s m w k).length
      · obtain ⟨j, hj, hrecord, htake⟩ := ih hbefore
        have hsame : (records s m w (k + 1))[i] = (records s m w k)[i] := by
          simp only [records_succ, List.getElem_append_left hbefore]
        refine ⟨j, Nat.lt_succ_of_lt hj, hrecord.trans (congrArg some hsame.symm), ?_⟩
        rw [hsame, ← htake, records_succ, List.take_append_of_le_length hbefore]
      · cases hrecord : record? s (after s m w k) with
        | none => simp [records_succ, hrecord, hbefore] at hi
        | some r =>
            have hsucc : records s m w (k + 1) = records s m w k ++ [r] := by rw [records_succ, hrecord]; rfl
            have hlast : i = (records s m w k).length := by
              rw [hsucc, List.length_append, List.length_singleton] at hi
              omega
            have hsame : (records s m w (k + 1))[i] = r := by simp [hsucc, hlast]
            refine ⟨k, Nat.lt_succ_self k, hrecord.trans (congrArg some hsame.symm), ?_⟩
            rw [hsame, hsucc]
            exact List.take_of_length_le (by simp [hlast])

theorem accepted_of_stored {q : Pair α n} (h : stored? st (step s st) = some q) :
    ((search? s st).any fun f => f.found.accepted) = true := by
  cases hfinal : st.phase.final with
  | true =>
      have hnone : stored? st (step s st) = none :=
        stored?_of_not_check (by rw [step_of_final hfinal]; exact Phase.iterate?_of_final hfinal)
      cases hnone.symm.trans h
  | false =>
      generalize hnext : step s st = st' at h
      have hturn : Turn s st st' := hnext ▸ step_turn st hfinal
      cases hturn with
      | accepted hd hsought hnew => simp [search?_of_ok hd hsought, Found.accepted, hnew]
      -- The first iterate is checked as well, but there is none before it to make a pair with.
      | first => cases h
      | start | firstFailed | firstEscaped | decided | undecided | unshown | along | toward | reset | stuck | misfit
      | thrown | failed | spent | lost | again | overfull => cases (stored?_of_not_check rfl).symm.trans h

/-- The memory of a run that goes on holds no more pairs than iterates were accepted since it was given up. -/
theorem size_le_unflushed {k : Nat} (h : (after s m w (k + 1)).phase.final = false) :
    (after s m w (k + 1)).phase.memory.size ≤ unflushed s m w (k + 1) := by
  induction k with
  | zero => exact Nat.zero_le _
  | succ k ih =>
      have hbefore := ih (final_of_after_succ h)
      generalize hj : k + 1 = j at hbefore h
      rw [after_succ] at h ⊢
      rw [unflushed]
      split
      · rename_i hflush
        cases he : event? s (after s m w j) with
        | none =>
            rw [he] at hflush
            cases hflush
        | some e =>
            rw [he] at hflush
            exact (Memory.size_of_isEmpty (step_flushed he hflush h)).le
      · -- Without a flush a step adds one pair at most, and only where a point was accepted.
        have hsize := (step_memory (s := s) (after s m w j)).size_le
        cases hstored : stored? (after s m w j) (step s (after s m w j)) with
        | none =>
            rw [hstored] at hsize
            exact hsize.trans (hbefore.trans (Nat.le_add_right _ _))
        | some q =>
            rw [hstored] at hsize
            rw [if_pos (accepted_of_stored hstored)]
            exact hsize.trans (Nat.add_le_add_right hbefore 1)

end Run

end BoxBfgs
