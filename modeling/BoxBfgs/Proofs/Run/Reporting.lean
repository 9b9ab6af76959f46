import BoxBfgs.Proofs.Run.Chain
import BoxBfgs.Proofs.Run.Checks
import BoxBfgs.Proofs.Run.Overheard

namespace BoxBfgs

/-- How many records there are to make: one, where an iterate is looked at that is not the first. -/
def Phase.due {α : Type} {n : Nat} : Phase α n → Nat
  | .check it => if it.previous.isSome then 1 else 0
  | _ => 0

theorem zipWith_tail_concat {α β : Type} (g : α → α → β) (l : List α) (a b : α) :
    List.zipWith g (l ++ [a] ++ [b]) (l ++ [a] ++ [b]).tail = List.zipWith g (l ++ [a]) (l ++ [a]).tail ++ [g a b] := by
  induction l with
  | nil => rfl
  | cons x l ih =>
      cases l with
      | nil => rfl
      | cons y l => simpa using ih

/-- Differences of neighbours add up to the difference of the ends. -/
theorem sum_differences {l : List ℝ} {a b : ℝ} (ha : l.head? = some a) (hb : l.getLast? = some b) :
    (List.zipWith (· - ·) l l.tail).sum = a - b := by
  induction l generalizing a with
  | nil => cases ha
  | cons x l ih =>
      cases ha
      cases l with
      | nil =>
          cases hb
          simp
      | cons y l =>
          have hrest := ih rfl hb
          simp only [List.tail_cons, List.zipWith_cons_cons, List.sum_cons] at hrest ⊢
          rw [hrest]
          ring

namespace Run

variable {α κ : Type} [Scalar α] {n : Nat} {s : Setup α κ n} {it : Iterate α n} {d : Vector α n} {p : Progress α n}
  {w : World α κ} {st st' : State α κ n} {recs : List (Record α)}

theorem count_lt_of_sought {found : Found α (Point α n)} {e : Evaluator (Vector α n) α n} {w' : World α κ}
    (h : sought s it d p w = (.ok found, e, w')) {q : Point α n} (hq : found.point = some q) :
    p.evaluator.count < e.count := by
  obtain ⟨l, hends⟩ := sought_ends_of_ok h
  have hrise := hends.point_counted (c := fun ew : Evaluator (Vector α n) α n × World α κ => ew.1.count)
    (fun ht => (Evaluator.attempt_count ht nofun).ge) (fun {t ew a ew'} ht => ?_) rfl hq
  · exact hrise.resolve_left nofun
  · have hsnd : (tried s it d t ew).2 = ew' := congrArg Prod.snd ht
    rw [tried, Evaluator.attempt_snd] at hsnd
    rw [← hsnd]
    exact Evaluator.le_call_count

theorem count_le_of_sought {r : Except (Fault α) (Found α (Point α n))} {e : Evaluator (Vector α n) α n}
    {w' : World α κ} (h : sought s it d p w = (r, e, w')) : p.evaluator.count ≤ e.count := by
  have hkept : p.evaluator.count ≤ (sought s it d p w).2.1.count :=
    sought_keeps (J := fun e _ => p.evaluator.count ≤ e.count) (fun _ he => he.trans Evaluator.le_call_count) le_rfl
  rwa [h] at hkept

/-- What a step that shows nothing adds to the records that are due, it adds to the iterations, and to the evaluations
at least. -/
structure Adds (st st' : State α κ n) : Prop where
  iterations : (∀ m why, st'.phase ≠ .escaped m why) →
    st'.progress.iterations = st.progress.iterations + st'.phase.due
  evaluations : st.progress.evaluator.count + st'.phase.due ≤ st'.progress.evaluator.count

theorem Turn.adds (h : Turn s st st') (hcheck : st.phase.iterate? = none) : Adds st st' := by
  cases h with
  | start | along | toward | stuck | misfit => exact ⟨fun _ => rfl, le_rfl⟩
  | decided | undecided | unshown => cases hcheck
  | first h | firstFailed h | firstEscaped h =>
      exact ⟨fun _ => rfl, Evaluator.le_call_count.trans_eq (congrArg (fun r => r.2.1.count) h)⟩
  | reset _ hp => exact ⟨fun _ => hp.iterations, (congrArg Evaluator.count hp.evaluator).ge⟩
  | thrown _ h => exact ⟨fun hne => absurd rfl (hne _ _), count_le_of_sought h⟩
  | failed _ h _ hp | spent _ h _ _ hp | lost _ h _ hp | again _ h _ hp =>
      exact ⟨fun _ => hp.iterations, (count_le_of_sought h).trans (congrArg Evaluator.count hp.evaluator).ge⟩
  | accepted _ h hnew hp =>
      exact ⟨fun _ => hp.iterations, (count_lt_of_sought h hnew).trans_eq (congrArg Evaluator.count hp.evaluator).symm⟩
  | overfull _ h hp =>
      exact ⟨fun hne => absurd rfl (hne _ _), (count_le_of_sought h).trans (congrArg Evaluator.count hp.evaluator).ge⟩

/-- Where the run goes on, an iterate with one before it is recorded. -/
theorem record?_of_shown {f : α} (hprevious : it.previous = some f)
    (h : ∀ m why, (checking s it p w).phase ≠ .escaped m why) : record? s ⟨.check it, p, w⟩ =
      some (report it f (s.bounds.projectedGradientNorm it.point.x it.point.g) p) := by
  rw [checking_eq] at h
  simp only [reported, hprevious, record_eq] at h
  simp only [record?, hprevious, Option.bind_some]
  cases hinspect : if w.session.debug then inspect s it else .ok () with
  | ok _ => rfl
  | error why =>
      rw [hinspect] at h
      exact absurd rfl (h it.memory why)

theorem checking_due : (checking s it p w).phase.due = 0 := by
  rw [checking_eq]
  generalize reported s it p w = r
  obtain ⟨r, p, w⟩ := r
  cases r with
  | error why => rfl
  | ok _ =>
      simp only [judged]
      split <;> rfl

theorem checking_still : Still p (checking s it p w).progress := by
  rw [checking_progress]
  split <;> exact ⟨rfl, rfl, rfl⟩

/-- Records that are numbered from one, with more evaluations each, and one for each iteration. -/
structure Reckoned (st : State α κ n) (recs : List (Record α)) : Prop where
  numbers : recs.map (·.iteration) = List.range' 1 recs.length
  rising : recs.Pairwise fun a b => a.evaluations < b.evaluations
  length : (∀ m why, st.phase ≠ .escaped m why) → recs.length + st.phase.due = st.progress.iterations
  counted : ∀ r ∈ recs, r.evaluations + st.phase.due ≤ st.progress.evaluator.count

omit [Scalar α] in
theorem Reckoned.unshown (h : Reckoned st recs) (hadds : Adds st st') (hdue : st.phase.due = 0)
    (hst : ∀ m why, st.phase ≠ .escaped m why) : Reckoned st' recs where
  numbers := h.numbers
  rising := h.rising
  length hne := by
    have hlength := h.length hst
    have hmore := hadds.iterations hne
    omega
  counted r hr := by
    have hcounted := h.counted r hr
    have hmore := hadds.evaluations
    omega

omit [Scalar α] in
/-- A look at an iterate that is not recorded: there was no record due, or the run has come to a fault. -/
theorem Reckoned.unrecorded (h : Reckoned ⟨.check it, p, w⟩ recs) (hstill : Still p st'.progress)
    (hdue : st'.phase.due = 0) (hshown : (∀ m why, st'.phase ≠ .escaped m why) → Phase.due (.check it) = 0) :
    Reckoned st' recs where
  numbers := h.numbers
  rising := h.rising
  length hne := by
    rw [hdue, hstill.iterations, ← h.length nofun, hshown hne]
  counted r hr := by
    rw [hdue, hstill.evaluator]
    exact (Nat.le_add_right _ _).trans (h.counted r hr)

theorem Reckoned.recorded (h : Reckoned ⟨.check it, p, w⟩ recs) (hstill : Still p st'.progress)
    (hdue : st'.phase.due = 0) (hone : Phase.due (.check it) = 1) (f norm : α) :
    Reckoned st' (recs ++ [report it f norm p]) := by
  have hlength : recs.length + 1 = p.iterations := hone ▸ h.length nofun
  have hcounted (r : Record α) (hr : r ∈ recs) : r.evaluations < p.evaluator.count := by
    have hr := h.counted r hr
    rwa [hone] at hr
  refine ⟨?_, ?_, fun _ => ?_, fun r hr => ?_⟩
  · simp [h.numbers, List.range'_concat, report, ← hlength, Nat.add_comm]
  · refine List.pairwise_append.mpr ⟨h.rising, List.pairwise_singleton _ _, fun a ha b hb => ?_⟩
    obtain rfl := List.mem_singleton.mp hb
    exact hcounted a ha
  · rw [hdue, hstill.iterations, List.length_append]
    exact hlength
  · rw [hdue, hstill.evaluator]
    rcases List.mem_append.mp hr with hr | hr
    · exact (hcounted r hr).le
    · obtain rfl := List.mem_singleton.mp hr
      exact le_rfl

theorem checking_reckoned (h : Reckoned ⟨.check it, p, w⟩ recs) :
    Reckoned (checking s it p w) (recs ++ (record? s ⟨.check it, p, w⟩).toList) := by
  cases hrecord : record? s ⟨.check it, p, w⟩ with
  | none =>
      rw [Option.toList_none, List.append_nil]
      refine h.unrecorded checking_still checking_due fun hne => ?_
      cases hprevious : it.previous with
      | none => simp [Phase.due, hprevious]
      | some f => cases hrecord.symm.trans (record?_of_shown hprevious hne)
  | some r =>
      obtain ⟨it', f, hphase, hprevious, rfl⟩ := record?_eq_some hrecord
      cases hphase
      exact h.recorded checking_still checking_due (by simp [Phase.due, hprevious]) f _

theorem step_reckoned (hfinal : st.phase.final = false) (h : Reckoned st recs) :
    Reckoned (step s st) (recs ++ (record? s st).toList) := by
  cases hit : st.phase.iterate? with
  | none =>
      rw [record?_of_iterate hit, Option.toList_none, List.append_nil]
      refine h.unshown ((step_turn st hfinal).adds hit) ?_ fun m why hescaped => ?_
      · obtain ⟨phase, p, w⟩ := st
        cases phase <;> first | rfl | cases hit
      · rw [hescaped] at hfinal
        cases hfinal
  | some it =>
      obtain ⟨phase, p, w⟩ := st
      obtain rfl := Phase.iterate?_eq_some.mp hit
      exact checking_reckoned h

theorem after_reckoned (m : Memory α n) (w : World α κ) (k : Nat) : Reckoned (after s m w k) (records s m w k) := by
  induction k with
  | zero => exact ⟨rfl, .nil, fun _ => rfl, nofun⟩
  | succ k ih =>
      rw [after_succ, records_succ]
      cases hfinal : (after s m w k).phase.final with
      | true =>
          have hnone : record? s (after s m w k) = none := record?_of_iterate (Phase.iterate?_of_final hfinal)
          rw [step_of_final hfinal, hnone, Option.toList_none, List.append_nil]
          exact ih
      | false => exact step_reckoned hfinal ih

theorem not_escaped_of_le {m : Memory α n} {i k : Nat} (h : ∀ m' why, (after s m w k).phase ≠ .escaped m' why)
    (hik : i ≤ k) : ∀ m' why, (after s m w i).phase ≠ .escaped m' why := by
  intro m' why hescaped
  refine h m' why ?_
  rw [after_of_final (by rw [hescaped]; rfl) hik, hescaped]

omit [Scalar α] in
/-- What is read off linked iterates and the values before them is read off neighbouring values. -/
theorem Linked.filterMap_previous {β : Type} (g : α → α → β) {its : List (Iterate α n)} (h : Linked its) :
    its.filterMap (fun it => it.previous.map fun f => g f it.point.f) =
      List.zipWith g (its.map (·.point.f)) (its.map (·.point.f)).tail := by
  induction h with
  | nil => rfl
  | first hnone => simp [hnone]
  | @next front a b _ hb ih =>
      have hvalues : (front ++ [a] ++ [b]).map (·.point.f) = front.map (·.point.f) ++ [a.point.f] ++ [b.point.f] := by
        simp
      have hbefore : (front ++ [a]).map (·.point.f) = front.map (·.point.f) ++ [a.point.f] := by simp
      rw [List.filterMap_append, ih, hvalues, zipWith_tail_concat, hbefore]
      simp [hb]

/-- What the records of a run tell of values is read off the values of its iterates. -/
theorem records_map {β : Type} {φ : Record α → β} {g : α → α → β}
    (hφ : ∀ (it : Iterate α n) f norm p, φ (report it f norm p) = g f it.point.f) {m : Memory α n} {k : Nat}
    (hend : ∀ m' why, (after s m w k).phase ≠ .escaped m' why) (hcheck : (after s m w k).phase.iterate? = none) :
    (records s m w k).map φ =
      List.zipWith g ((iterates s m w k).map (·.point.f)) ((iterates s m w k).map (·.point.f)).tail := by
  have hiterates : iterates s m w k = (List.range k).filterMap fun i => (after s m w i).phase.iterate? := by
    simp [iterates, List.range_succ, hcheck]
  rw [← (after_trailed m w k).linked.filterMap_previous, hiterates, records, List.map_filterMap,
    List.filterMap_filterMap]
  refine List.filterMap_congr fun i hi => ?_
  have hnext : ∀ m' why, (step s (after s m w i)).phase ≠ .escaped m' why := by
    rw [← after_succ]
    exact not_escaped_of_le hend (List.mem_range.mp hi)
  cases hit : (after s m w i).phase.iterate? with
  | none => rw [record?_of_iterate hit, Option.map_none, Option.bind_none]
  | some it =>
      generalize after s m w i = st at hit hnext
      obtain ⟨phase, p, w⟩ := st
      obtain rfl := Phase.iterate?_eq_some.mp hit
      cases hprevious : it.previous with
      | none => simp [record?, hprevious]
      | some f => simp [record?_of_shown hprevious hnext, hprevious, hφ]

variable {m : Memory α n}

/-- The first iterate is the start, with the value that the objective gave there first. -/
theorem first_answer (h : (after s m w 2).phase = .check it) : it.point.x = s.start ∧
    ∃ g, (s.objective.call (.ofVector s.start) (after s m w 1).world).1 = .answer (it.point.f, g) := by
  have hcalled : Evaluator.Called (after s m w 1).progress.evaluator s.objective Tensor.ofVector s.start
    (after s m w 1).world _ := Evaluator.call_called
  change (evaluating s m.clear (after s m w 1).progress (after s m w 1).world).phase = _ at h
  rw [evaluating] at h
  generalize (after s m w 1).progress.evaluator.call s.objective Tensor.ofVector s.start (after s m w 1).world = r
    at h hcalled
  cases hcalled with
  | refused => cases h
  | answered _ hreply hp =>
      cases h
      exact ⟨Evaluator.check_x hp, _, by rw [hreply, Evaluator.check_f hp]⟩
  | @failed _ why =>
      cases why <;> cases h

theorem final_of_not_first (h : (after s m w 2).phase.iterate? = none) : (after s m w 2).phase.final = true := by
  change (evaluating s m.clear (after s m w 1).progress (after s m w 1).world).phase.iterate? = none at h
  change (evaluating s m.clear (after s m w 1).progress (after s m w 1).world).phase.final = true
  rw [evaluating] at h ⊢
  split at h
  · cases h
  · rfl
  · rfl

theorem iterates_head? (k : Nat) : (iterates s m w (k + 2)).head? = (after s m w 2).phase.iterate? := by
  induction k with
  | zero =>
      have hstart : (after s m w 0).phase.iterate? = none := rfl
      have hevaluating : (after s m w 1).phase.iterate? = none := rfl
      cases hit : (after s m w 2).phase.iterate? <;>
        simp [iterates, List.range_succ, hstart, hevaluating, hit]
  | succ k ih =>
      rw [iterates_succ, List.head?_append, ih]
      cases hit : (after s m w 2).phase.iterate? with
      | some it => rfl
      | none =>
          -- Without a first iterate the run has ended, and there is none later on.
          rw [after_of_final (final_of_not_first hit) (by omega), hit]
          rfl

theorem first_iterate {k : Nat} (h : (iterates s m w k).head? = some it) : (after s m w 2).phase = .check it := by
  match k with
  | 0 | 1 => cases h
  | k + 2 => exact Phase.iterate?_eq_some.mp ((iterates_head? k).symm.trans h)

theorem last_iterate {k : Nat} {m' : Memory α n} {c : Option (Point α n)} {r : Reason α}
    (h : (after s m w k).phase = .ended m' c r) : c = (iterates s m w k).getLast?.map (·.point) := by
  have htrailed := after_trailed (s := s) m w k
  rw [h] at htrailed
  generalize iterates s m w k = its at htrailed
  cases htrailed with
  | going hph => cases hph
  | ended => simp
  | unevaluated => rfl

/-- What the records tell of a run up to a step, with the iterations and the evaluations of its status. -/
structure Faithful {κ : Type} {n : Nat} (s : Setup ℝ κ n) (m : Memory ℝ n) (w : World ℝ κ) (k : Nat) (status : Status ℝ)
    (recs : List (Record ℝ)) : Prop where
  length : recs.length = status.iterations
  numbers : recs.map (·.iteration) = List.range' 1 status.iterations
  rising : recs.Pairwise fun a b => a.evaluations < b.evaluations
  counted : ∀ r ∈ recs, r.evaluations ≤ status.evaluations
  values : recs.map (·.f) = ((iterates s m w k).map (·.point.f)).tail
  decreases : recs.map (·.decrease) =
    List.zipWith (· - ·) ((iterates s m w k).map (·.point.f)) ((iterates s m w k).map (·.point.f)).tail
  /-- The decreases add up to the way from the value at the start to the value at the last iterate. -/
  total : ∀ a b, (iterates s m w k).head? = some a → (iterates s m w k).getLast? = some b →
    (recs.map (·.decrease)).sum = a.point.f - b.point.f ∧ a.point.x = s.start ∧
      ∃ g, (s.objective.call (.ofVector s.start) (after s m w 1).world).1 = .answer (a.point.f, g)
  last : ∀ m' c r, (after s m w k).phase = .ended m' c r → c = (iterates s m w k).getLast?.map (·.point)
  /-- Each record was made in a step. It tells of a memory with no more pairs than it may hold, and than iterates were
  accepted since it was given up. The records up to it tell of all events before the step, of each one once. -/
  made : ∀ i (hi : i < recs.length), ∃ j < k, record? s (after s m w j) = some recs[i] ∧
    recs[i].memorySize ≤ min s.options.depth (unflushed s m w j) ∧
      (recs.take (i + 1)).flatMap (·.notes) = events s m w j

theorem after_faithful {κ : Type} {n : Nat} {s : Setup ℝ κ n} {m m' : Memory ℝ n} {w : World ℝ κ} {k : Nat}
    {c : Option (Point ℝ n)} {r : Reason ℝ} (hend : (after s m w k).phase = .ended m' c r) {status : Status ℝ}
    (hiterations : status.iterations = (after s m w k).progress.iterations)
    (hevaluations : status.evaluations = (after s m w k).progress.evaluator.count)
    (hsize : ∀ j r, record? s (after s m w j) = some r → r.memorySize ≤ min s.options.depth (unflushed s m w j)) :
    Faithful s m w k status (records s m w k) := by
  have hreckoned := after_reckoned (s := s) m w k
  have hgoing : ∀ m' why, (after s m w k).phase ≠ .escaped m' why := fun m' why h => by cases hend.symm.trans h
  have hcheck : (after s m w k).phase.iterate? = none := by rw [hend]; rfl
  have hlength : (records s m w k).length = status.iterations := by
    have hdue := hreckoned.length hgoing
    rw [hend] at hdue
    exact hdue.trans hiterations.symm
  have hdecreases : (records s m w k).map (·.decrease) = List.zipWith (· - ·)
      ((iterates s m w k).map (·.point.f)) ((iterates s m w k).map (·.point.f)).tail :=
    records_map (fun _ _ _ _ => rfl) hgoing hcheck
  have hvalues : (records s m w k).map (·.f) = List.zipWith (fun _ f => f)
      ((iterates s m w k).map (·.point.f)) ((iterates s m w k).map (·.point.f)).tail :=
    records_map (fun _ _ _ _ => rfl) hgoing hcheck
  refine ⟨hlength, hlength ▸ hreckoned.numbers, hreckoned.rising, fun r hr => ?_, ?_, hdecreases, fun a b ha hb => ?_,
    fun m' c r h => last_iterate h, fun i hi => ?_⟩
  · rw [hevaluations]
    exact (Nat.le_add_right _ _).trans (hreckoned.counted r hr)
  · rw [hvalues]
    exact List.ext_getElem (by simp) (by simp)
  · rw [hdecreases]
    exact ⟨sum_differences (by simp [ha]) (by simp [hb]), first_answer (first_iterate ha)⟩
  · obtain ⟨j, hj, hrecord, htake⟩ := exists_record hi
    exact ⟨j, hj, hrecord, hsize j _ hrecord, by rw [htake, record_notes hrecord]⟩

end Run

namespace Solver

variable {κ : Type}

theorem closed_eq_ok {v : Solver ℝ κ} {p : Problem ℝ (World ℝ κ)} {saved : Option Log.Saved} {st : State ℝ κ p.n}
    {a : Answer ℝ} (h : (v.closed p saved st).1 = .ok a) : ∃ m c, st.phase = .ended m c a.status.reason ∧
      a.status.iterations = st.progress.iterations ∧ a.status.evaluations = st.progress.evaluator.count := by
  obtain ⟨phase, progress, w⟩ := st
  cases phase with
  | ended m c r =>
      cases h
      rw [answer_status]
      exact ⟨m, c, rfl, rfl, rfl⟩
  | escaped | start | evaluating | check | cauchy | subspace | search => cases h

/-- The record of a step has no more pairs than the memory may hold, and than came since it was given up. -/
theorem record_memorySize (v : Solver ℝ κ) {p : Problem ℝ (World ℝ κ)} (hs : (v.setup p).Checked) (w : World ℝ κ)
    {j : Nat} {r : Record ℝ} (h : Run.record? (v.toSetup p) (v.trace p w j) = some r) :
    r.memorySize ≤ min p.options.depth (Run.unflushed (v.toSetup p) (.renew v.memory p.n p.options.depth)
      (w.enter v.id p.options.verbosity).1 j) := by
  obtain ⟨it, f, hphase, -, rfl⟩ := Run.record?_eq_some h
  refine le_min (v.trace_orderly hs w hphase).size ?_
  cases j with
  | zero => cases hphase
  | succ j =>
      have hcheck : (Run.after (v.toSetup p) (.renew v.memory p.n p.options.depth)
        (w.enter v.id p.options.verbosity).1 (j + 1)).phase = .check it := hphase
      have hsize := Run.size_le_unflushed (by rw [hcheck]; rfl)
      rwa [hcheck] at hsize

/-- What a minimisation reports is what it did. The history is what the callback was told, and where there is an answer
it holds one record for each iteration, with the evaluations and the decrease until then, the memory that was left and
everything that happened on the way. -/
theorem minimize_faithful (v : Solver ℝ κ) {offer : Offer ℝ (World ℝ κ)} {start : Start ℝ} {o : Options ℝ}
    (ho : o.Checked) (hkeep : o.keepHistory.holds = true) {p : Problem ℝ (World ℝ κ)}
    (hp : prepare (.ok o) offer start = .ok p) {w : World ℝ κ} (hrun : w.isRunning v.id = false) :
    (v.minimize offer start (.ok o) w).2.1.history = v.told offer start (.ok o) w ∧
      ∀ a, (v.minimize offer start (.ok o) w).1 = .ok a → ∃ k, (v.trace p w k).phase.final = true ∧
        Run.Faithful (v.toSetup p) (.renew v.memory p.n p.options.depth) (w.enter v.id p.options.verbosity).1 k a.status
          (v.minimize offer start (.ok o) w).2.1.history := by
  refine ⟨v.history_eq_told hp hkeep hrun, fun a ha => ?_⟩
  have hs := prepare_checked v ho hp
  obtain ⟨rfl, -⟩ := prepare_options hp
  rw [minimize_of_prepare hrun hp, solve_eq] at ha ⊢
  rw [closed_history]
  rw [final_eq_trace] at ha ⊢
  obtain ⟨m, c, hend, hiterations, hevaluations⟩ := closed_eq_ok ha
  refine ⟨Run.fuel p.options.iterations.rounds, by rw [hend]; rfl, ?_⟩
  have hhistory : (v.trace p w (Run.fuel p.options.iterations.rounds)).progress.history = _ := Run.after_history hkeep _
  rw [hhistory]
  exact Run.after_faithful hend hiterations hevaluations fun j r h => v.record_memorySize hs w h

/-- A run that keeps its history ends at the smallest point of the square after one iteration. -/
theorem minimize_kept : (squareSolver.minimize (.function square) (.array [1] [1]) (.ok keptOptions)
    { session := {}, client := () }).1 = .ok keptAnswer := by
  have hs : (squareSolver.setup keptProblem).Checked := prepare_checked squareSolver keptOptions_checked prepare_kept
  have hnorm : (squareSolver.setup keptProblem).bounds.projectedGradientNorm (squareAt (1 - 1)).x (squareAt (1 - 1)).g ≤
      keptOptions.gTolerance := by
    rw [sub_self]
    exact kept_norm
  obtain ⟨m, p, w', hseven, hone, hevaluator⟩ := squaring_kept.after_seven hs rfl (fun _ _ _ => if_pos hnorm)
    (World.enter { session := {}, client := () } 0 .silent).1
  rw [sub_self] at hseven hevaluator
  have htrace : squareSolver.trace keptProblem { session := {}, client := () } 7 = _ := hseven
  rw [minimize_of_ended prepare_kept rfl (by decide) (congrArg State.phase htrace), htrace, hone, hevaluator]
  rfl

theorem minimize_faithful_kept : keptOptions.Checked ∧ keptOptions.keepHistory.holds = true ∧
    prepare (.ok keptOptions) (.function square) (.array [1] [1]) = .ok keptProblem ∧
    ∃ a r, (squareSolver.minimize (.function square) (.array [1] [1]) (.ok keptOptions)
        { session := {}, client := () }).1 = .ok a ∧
      (squareSolver.minimize (.function square) (.array [1] [1]) (.ok keptOptions)
        { session := {}, client := () }).2.1.history = [r] ∧
      squareSolver.told (.function square) (.array [1] [1]) (.ok keptOptions) { session := {}, client := () } = [r] ∧
      r.iteration = 1 ∧ a.status.iterations = 1 := by
  obtain ⟨hhistory, hanswer⟩ := minimize_faithful squareSolver keptOptions_checked rfl prepare_kept
    (rfl : ({ session := {}, client := () } : World ℝ Unit).isRunning squareSolver.id = false)
  obtain ⟨k, -, hfaithful⟩ := hanswer keptAnswer minimize_kept
  have hone : keptAnswer.status.iterations = 1 := rfl
  obtain ⟨r, hr⟩ := List.length_eq_one_iff.mp (hfaithful.length.trans hone)
  have hnumbers := hfaithful.numbers
  rw [hr, hone] at hnumbers
  exact ⟨keptOptions_checked, rfl, prepare_kept, keptAnswer, r, minimize_kept, hr, hhistory.symm.trans hr,
    List.head_eq_of_cons_eq hnumbers, hone⟩

end Solver

end BoxBfgs
