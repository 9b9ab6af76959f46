import BoxBfgs.Proofs.Run.Inspect
import BoxBfgs.Value.Parts

namespace BoxBfgs

theorem Objective.call_watched {α κ : Type} {o : Objective α (World α κ)} {x : Tensor α} {w w' : World α (Watched α κ)}
    {r : Reply α (α × Tensor α)} (h : o.watched.call x w = (r, w')) :
    r = (o.call x w.plain).1 ∧ w'.calls = w.calls ++ [⟨x, r⟩] := by
  obtain ⟨hr, hw⟩ := Prod.mk.inj h
  refine ⟨hr.symm, ?_⟩
  rw [← hw, ← hr]
  rfl

namespace Call

variable {α : Type} [Scalar α] {n : Nat}

def points (n : Nat) (calls : List (Call α)) : List (Point α n) := calls.filterMap (point? n)

@[simp] theorem points_append (l : List (Call α)) (c : Call α) :
    points n (l ++ [c]) = points n l ++ (c.point? n).toList := by
  rw [points, points, List.filterMap_append]
  rfl

end Call

namespace Evaluator

variable {α κ : Type} [Scalar α] {n : Nat} {e : Evaluator (Vector α n) α n} {o : Objective α (World α κ)}
  {x : Vector α n} {w : World α (Watched α κ)} {cap : Cap} {d : Vector α n}

theorem point?_of_check {k : Nat} {f : α} {g : Tensor α} {p : Point α n} (h : e.check k x f g = .ok p) :
    Call.point? n ⟨.ofVector x, .answer (f, g)⟩ = some p := by
  rw [check] at h
  split at h
  · cases h
  · rename_i g' hg
    split at hg
    · rw [Call.point?, Tensor.vector?_ofVector]
      simp only [hg]
      split_ifs at h ⊢
      cases h
      rfl
    · cases hg

theorem check_of_point? (he : e.expected = .whole n) {k : Nat} {f : α} {g : Tensor α} {p : Point α n}
    (h : Call.point? n ⟨.ofVector x, .answer (f, g)⟩ = some p) : e.check k x f g = .ok p := by
  rw [Call.point?, Tensor.vector?_ofVector] at h
  cases hg : g.vector? n with
  | none => simp [hg] at h
  | some g' =>
      -- A gradient that fills a vector has the length that is expected of it.
      have hlength : g.entries.length = n := by
        by_contra hne
        simp [Tensor.vector?, Vec.ofList?, hne] at hg
      have hwhole : e.expected.isWhole g.entries.length = true := by simp [he, Value.isWhole, hlength]
      simp only [hg] at h
      rw [check, hwhole, if_pos rfl, hg]
      split_ifs at h with hfinite
      cases h
      exact if_pos hfinite

theorem call_prefix : w.calls <+: (e.call o.watched Tensor.ofVector x w).2.2.calls := by
  have hcalled : Called e o.watched Tensor.ofVector x w (e.call o.watched Tensor.ofVector x w) := call_called
  generalize e.call o.watched Tensor.ofVector x w = r at hcalled
  cases hcalled with
  | refused => exact List.prefix_rfl
  | answered _ hreply | failed _ hreply =>
      rw [(Objective.call_watched hreply).2]
      exact List.prefix_append _ _

theorem call_seen {p : Point α n} {e' : Evaluator (Vector α n) α n} {w' : World α (Watched α κ)}
    (h : e.call o.watched Tensor.ofVector x w = (.ok p, e', w')) : p ∈ Call.points n w'.calls := by
  have hcalled : Called e o.watched Tensor.ofVector x w (e.call o.watched Tensor.ofVector x w) := call_called
  rw [h] at hcalled
  cases hcalled with
  | answered _ hreply hp =>
      rw [(Objective.call_watched hreply).2, Call.points_append, point?_of_check hp]
      simp

/-- What a watched call writes down: nothing if it is refused, otherwise itself. -/
inductive Noted (e : Evaluator (Vector α n) α n) (o : Objective α (World α κ)) (x : Vector α n)
    (w : World α (Watched α κ)) :
    Except (Fault α) (Point α n) × Evaluator (Vector α n) α n × World α (Watched α κ) → Prop
  | refused (hout : e.exhausted = true) : Noted e o x w (.error (.budget e.budget), e, w)
  | made {c : Call α} {r : Except (Fault α) (Point α n)} {w' : World α (Watched α κ)} (hleft : e.exhausted = false)
      (hx : c.x = .ofVector x) (hreply : c.reply = (o.call c.x w.plain).1) (hw : w'.calls = w.calls ++ [c])
      (hr : r.toOption = c.point? n) (hbudget : ∀ cap, r = .error (.budget cap) → c.reply = .fault (.budget cap)) :
      Noted e o x w (r, { e with count := e.count + 1, best := (c.point? n).toList.foldl better e.best }, w')

theorem call_noted (he : e.expected = .whole n) : Noted e o x w (e.call o.watched Tensor.ofVector x w) := by
  have hcalled : Called e o.watched Tensor.ofVector x w (e.call o.watched Tensor.ofVector x w) := call_called
  generalize e.call o.watched Tensor.ofVector x w = r at hcalled
  cases hcalled with
  | refused hout => exact .refused hout
  | answered hleft hreply hp =>
      rename_i f g p w'
      have hpoint := point?_of_check hp
      obtain ⟨hr, hw⟩ := Objective.call_watched hreply
      have hmade := Noted.made (c := ⟨.ofVector x, .answer (f, g)⟩) (r := .ok p) hleft rfl hr hw
        hpoint.symm nofun
      rwa [hpoint] at hmade
  | failed hleft hreply hbad hbudget =>
      rename_i r why w'
      obtain ⟨hr, hw⟩ := Objective.call_watched hreply
      have hnone : Call.point? n ⟨.ofVector x, r⟩ = none := by
        rw [Option.eq_none_iff_forall_ne_some]
        intro p hp
        cases r with
        | answer a => exact hbad _ _ rfl p (check_of_point? he hp)
        | abort | arithmetic | fault => cases hp
      have hmade := Noted.made (c := ⟨.ofVector x, r⟩) (r := .error why) hleft rfl hr hw
        hnone.symm fun c hc => hbudget c (Except.error.inj hc)
      rwa [hnone] at hmade

/-- An evaluator beside the calls that were made through it. -/
structure Tallied (cap : Cap) (e : Evaluator (Vector α n) α n) (calls : List (Call α)) : Prop where
  budget : e.budget = cap
  expected : e.expected = .whole n
  count : e.count = calls.length
  best : e.best = (Call.points n calls).foldl better none
  within : ∀ k, cap.Is k → e.count ≤ k

theorem Tallied.call (h : Tallied cap e w.calls) :
    Tallied cap (e.call o.watched Tensor.ofVector x w).2.1 (e.call o.watched Tensor.ofVector x w).2.2.calls := by
  have hnoted : Noted e o x w (e.call o.watched Tensor.ofVector x w) := call_noted h.expected
  generalize e.call o.watched Tensor.ofVector x w = r at hnoted
  cases hnoted with
  | refused => exact h
  | made hleft hx hreply hw =>
      refine ⟨h.budget, h.expected, ?_, ?_, fun k hk => ?_⟩
      · simp [hw, h.count]
      · simp [hw, h.best]
      · have hnot : ¬k ≤ e.count := by
          rw [← hk.reached_iff, ← h.budget]
          simpa [exhausted] using hleft
        exact Nat.lt_of_not_le hnot

end Evaluator

/-- Whether the first evaluation was made. -/
def Phase.begun {α : Type} {n : Nat} : Phase α n → Bool
  | .start _ | .evaluating _ => false
  | _ => true

namespace Run

variable {α κ : Type} [Scalar α] {n : Nat} {s : Setup α κ n} {it : Iterate α n} {d : Vector α n} {p : Progress α n}
  {w : World α κ}

theorem sought_ends (s : Setup α κ n) (it : Iterate α n) (d : Vector α n) (p : Progress α n) (w : World α κ) :
    (∃ why, sought s it d p w = (.error (.unmet (.search why)), p.evaluator, w)) ∨
      ∃ l, Line.Ends (tried s it d) (max 1 s.options.searchEvaluations.rounds) l none 0 (p.evaluator, w)
        (sought s it d p w) :=
  Line.search_ends _ _ _ _ _ _ _

theorem sought_ends_of_ok {found : Found α (Point α n)} {e : Evaluator (Vector α n) α n} {w' : World α κ}
    (h : sought s it d p w = (.ok found, e, w')) : ∃ l, Line.Ends (tried s it d)
      (max 1 s.options.searchEvaluations.rounds) l none 0 (p.evaluator, w) (.ok found, e, w') := by
  rcases sought_ends s it d p w with ⟨why, hunmet⟩ | ⟨l, hends⟩
  · cases hunmet.symm.trans h
  · exact ⟨l, h ▸ hends⟩

/-- The points that a run can ask for, whatever its iterates and directions are. -/
inductive Askable (s : Setup α κ n) : Vector α n → Prop
  | first : Askable s s.start
  | trial (x d : Vector α n) (t : α) : Askable s (trial s x d t)

/-- Whatever calls of the evaluator keep, a search keeps. -/
theorem sought_keeps {J : Evaluator (Vector α n) α n → World α κ → Prop}
    (hcall : ∀ {e x w}, Askable s x → J e w →
      J (e.call s.objective Tensor.ofVector x w).2.1 (e.call s.objective Tensor.ofVector x w).2.2)
    (h : J p.evaluator w) : J (sought s it d p w).2.1 (sought s it d p w).2.2 := by
  refine Line.search_world (J := fun ew : Evaluator (Vector α n) α n × World α κ => J ew.1 ew.2) (fun t ew h => ?_)
    _ _ _ _ _ h
  rw [tried, Evaluator.attempt_snd]
  exact hcall (.trial _ _ _) h

/-- Whatever calls of the evaluator keep, and nothing else touches, a step of a run keeps. -/
theorem Turn.keeps {J : Evaluator (Vector α n) α n → World α κ → Prop}
    (hcall : ∀ {e x w}, Askable s x → J e w →
      J (e.call s.objective Tensor.ofVector x w).2.1 (e.call s.objective Tensor.ofVector x w).2.2)
    (hquiet : ∀ {e w w'}, w'.client = w.client → J e w → J e w')
    (hshow : ∀ {f e r w}, s.callback = some f → J e w → J e (f r w).2) {st st' : State α κ n} (h : Turn s st st')
    (hJ : J st.progress.evaluator st.world) : J st'.progress.evaluator st'.world := by
  have hshown {e : Evaluator (Vector α n) α n} {w w' : World α κ} (hw : Shown s w w') (he : J e w) : J e w' := by
    cases hw with
    | kept hw => exact hquiet hw he
    | called hf hw => exact hshow hf (hquiet hw he)
  have hsought {it : Iterate α n} {d : Vector α n} {p p' : Progress α n} {w w1 w' : World α κ}
      {e : Evaluator (Vector α n) α n} {r : Except (Fault α) (Found α (Point α n))} (h : sought s it d p w = (r, e, w1))
      (hp : p'.evaluator = e) (hw : w'.client = w1.client) (hJ : J p.evaluator w) : J p'.evaluator w' := by
    have hkept : J (sought s it d p w).2.1 (sought s it d p w).2.2 := sought_keeps hcall hJ
    rw [h] at hkept
    rw [hp]
    exact hquiet hw hkept
  cases h with
  | start hw | along hw | toward hw => exact hquiet hw hJ
  | first h | firstFailed h | firstEscaped h =>
      have hcalled := hcall .first hJ
      rwa [h] at hcalled
  | decided hp hw | undecided hp hw | unshown hp hw =>
      rw [hp.evaluator]
      exact hshown hw hJ
  | reset _ hp hw =>
      rw [hp.evaluator]
      exact hquiet hw hJ
  | stuck | misfit => exact hJ
  | thrown _ h => exact hsought h rfl rfl hJ
  | failed _ h _ hp hw => exact hsought h hp.evaluator hw hJ
  | spent _ h _ _ hp hw => exact hsought h hp.evaluator hw hJ
  | lost _ h _ hp _ hw => exact hsought h hp.evaluator hw hJ
  | again _ h _ hp _ hw => exact hsought h hp.evaluator hw hJ
  | accepted _ h _ hp hw => exact hsought h hp.evaluator hw hJ
  | overfull _ h hp hw => exact hsought h hp.evaluator hw hJ

/-- What holds of an evaluator and the calls written down is up to its calls alone. -/
theorem Turn.keeps_calls {J : Evaluator (Vector α n) α n → List (Call α) → Prop}
    (hcall : ∀ {e x} {w : World α (Watched α κ)}, Askable s.watched x → J e w.calls →
      J (e.call s.objective.watched Tensor.ofVector x w).2.1 (e.call s.objective.watched Tensor.ofVector x w).2.2.calls)
    {st st' : State α (Watched α κ) n} (h : Turn s.watched st st') (hJ : J st.progress.evaluator st.world.calls) :
    J st'.progress.evaluator st'.world.calls := by
  refine h.keeps (J := fun e w => J e w.calls) hcall (fun hw he => ?_) (fun hf he => ?_) hJ
  · rwa [World.calls_of_client hw]
  · obtain ⟨f, -, rfl⟩ := Option.map_eq_some_iff.mp hf
    exact he

theorem Turn.calls_prefix {st st' : State α (Watched α κ) n} (h : Turn s.watched st st') :
    st.world.calls <+: st'.world.calls :=
  h.keeps_calls (J := fun _ calls => st.world.calls <+: calls) (fun _ h => h.trans Evaluator.call_prefix)
    List.prefix_rfl

/-- The point that a search finds was led to by one of its calls. -/
theorem sought_seen {w w' : World α (Watched α κ)} {found : Found α (Point α n)} {e : Evaluator (Vector α n) α n}
    (h : sought s.watched it d p w = (.ok found, e, w')) {q : Point α n} (hq : found.point = some q) :
    q ∈ Call.points n w'.calls := by
  obtain ⟨l, hends⟩ := sought_ends_of_ok h
  refine hends.point_seen
    (R := fun q (ew : Evaluator (Vector α n) α n × World α (Watched α κ)) => q ∈ Call.points n ew.2.calls)
    (fun ht => Evaluator.call_seen (Evaluator.attempt_eq_answered ht)) (fun {t ew a ew' q} ht hq => ?_) nofun rfl hq
  have hgrown : ew.2.calls <+: (tried s.watched it d t ew).2.2.calls := by
    rw [tried, Evaluator.attempt_snd]
    exact Evaluator.call_prefix
  have hsnd : (tried s.watched it d t ew).2 = ew' := congrArg Prod.snd ht
  rw [hsnd] at hgrown
  exact (hgrown.filterMap _).subset hq

theorem after_tallied (m : Memory α n) {w : World α (Watched α κ)} (hw : w.calls = []) (k : Nat) :
    Evaluator.Tallied s.options.evaluations (after s.watched m w k).progress.evaluator
      (after s.watched m w k).world.calls := by
  refine after_invariant (P := fun st : State α (Watched α κ) n =>
    Evaluator.Tallied s.options.evaluations st.progress.evaluator st.world.calls) ?_
    (fun h => h.keeps_calls fun _ he => he.call) k
  have hcalls : (first s.watched m w).world.calls = [] := hw
  rw [hcalls]
  exact ⟨rfl, rfl, rfl, rfl, fun k _ => Nat.zero_le k⟩

/-- The evaluator counts the evaluations that a search reports, and no others. -/
theorem sought_count (hs : s.objective.Quiet) {found : Found α (Point α n)} {e : Evaluator (Vector α n) α n}
    {w' : World α κ} (h : sought s it d p w = (.ok found, e, w')) :
    e.count = p.evaluator.count + found.evaluations := by
  obtain ⟨l, hends⟩ := sought_ends_of_ok h
  have hadd := hends.evaluations_add (c := fun ew : Evaluator (Vector α n) α n × World α κ => ew.1.count)
    Evaluator.attempt_count (fun ht => congrArg (fun ew => Evaluator.count ew.1) (Evaluator.attempt_refused hs ht).2) rfl
  dsimp only at hadd
  omega

/-- An evaluator that has counted the first evaluation, and those of the searches since. -/
structure Counted (st : State α κ n) (found : List (Search α n)) : Prop where
  before : st.phase.begun = false → st.progress.evaluator.count = 0 ∧ found = []
  since : st.phase.begun = true → (∀ m why, st.phase ≠ .escaped m why) →
    st.progress.evaluator.count = 1 + (found.map fun f => f.found.evaluations).sum

theorem Turning.begun {ph : Phase α n} (h : Turning s ph it) : ph.begun = true ∧ ∀ m why, ph ≠ .escaped m why := by
  cases h <;> exact ⟨rfl, fun _ _ h => by cases h⟩

namespace Counted

variable {ph ph' : Phase α n} {p' : Progress α n} {w' w'' : World α κ} {e : Evaluator (Vector α n) α n} {m : Memory α n}
  {found : List (Search α n)}

omit [Scalar α] in
theorem escaped {why : Fault α} : Counted (⟨.escaped m why, p, w⟩ : State α κ n) found :=
  ⟨nofun, fun _ hne => absurd rfl (hne m why)⟩

theorem keep (h : Counted ⟨ph, p, w⟩ found) (hph : ∀ m why, ph ≠ .escaped m why) (hbegun : ph'.begun = ph.begun)
    (hp : p'.evaluator = p.evaluator) (hnone : search? s ⟨ph, p, w⟩ = none) :
    Counted ⟨ph', p', w'⟩ (found ++ (search? s ⟨ph, p, w⟩).toList) := by
  rw [hnone, Option.toList_none, List.append_nil]
  constructor
  · intro hb
    rw [hp]
    exact h.before (hbegun.symm.trans hb)
  · intro hb _
    rw [hp]
    exact h.since (hbegun.symm.trans hb) hph

theorem first (h : Counted ⟨.evaluating m, p, w⟩ found) {r : Except (Fault α) (Point α n)}
    (hcall : p.evaluator.call s.objective Tensor.ofVector s.start w = (r, e, w')) (hr : ∀ c, r ≠ .error (.budget c))
    (hbegun : ph'.begun = true) : Counted ⟨ph', { p with evaluator := e }, w'⟩ (found ++ []) := by
  obtain ⟨hzero, rfl⟩ := h.before rfl
  have hcount : (p.evaluator.call s.objective Tensor.ofVector s.start w).2.1.count = p.evaluator.count + 1 := by
    refine Evaluator.call_count fun c => ?_
    rw [hcall]
    exact hr c
  rw [hcall, hzero] at hcount
  refine ⟨fun hb => ?_, fun _ _ => hcount⟩
  cases hb.symm.trans hbegun

theorem searched (hs : s.objective.Quiet) (h : Counted ⟨.search it d, p, w⟩ found) (hd : falls s it d = true)
    {fnd : Found α (Point α n)} (hsought : sought s it d p w = (.ok fnd, e, w'')) (hp : p'.evaluator = e)
    (hbegun : ph'.begun = true) : Counted ⟨ph', p', w'⟩ (found ++ (search? s ⟨.search it d, p, w⟩).toList) := by
  have hbefore : p.evaluator.count = 1 + (found.map fun f => f.found.evaluations).sum :=
    h.since rfl fun _ _ h => by cases h
  have hadd := sought_count hs hsought
  refine ⟨fun hb => ?_, fun _ _ => ?_⟩
  · cases hb.symm.trans hbegun
  · rw [search?_of_ok hd hsought, hp]
    simp only [Option.toList_some, List.map_append, List.map_cons, List.map_nil, List.sum_append, List.sum_singleton]
    omega

end Counted

theorem Turn.counted (hs : s.objective.Quiet) {st st' : State α κ n} {found : List (Search α n)} (h : Turn s st st')
    (hc : Counted st found) : Counted st' (found ++ (search? s st).toList) := by
  cases h with
  | start | along | toward => exact hc.keep (fun _ _ h => by cases h) rfl rfl rfl
  | first h | firstFailed h => exact hc.first h nofun rfl
  | decided hp | undecided hp => exact hc.keep (fun _ _ h => by cases h) rfl hp.evaluator rfl
  | reset ht hp => exact hc.keep ht.begun.2 ht.begun.1.symm hp.evaluator (search?_of_turning ht)
  | stuck ht => exact hc.keep ht.begun.2 ht.begun.1.symm rfl (search?_of_turning ht)
  | firstEscaped | unshown | misfit | thrown | overfull => exact .escaped
  | failed hd h _ hp => exact hc.searched hs hd h hp.evaluator rfl
  | spent hd h _ _ hp => exact hc.searched hs hd h hp.evaluator rfl
  | lost hd h _ hp => exact hc.searched hs hd h hp.evaluator rfl
  | again hd h _ hp => exact hc.searched hs hd h hp.evaluator rfl
  | accepted hd h _ hp => exact hc.searched hs hd h hp.evaluator rfl

theorem after_counted (hs : s.objective.Quiet) (m : Memory α n) (w : World α κ) (k : Nat) :
    Counted (after s m w k) (searches s m w k) :=
  trace_invariant (P := fun st _ found => Counted st found) ⟨fun _ => ⟨rfl, rfl⟩, nofun⟩ (fun h hc => h.counted hs hc) k

theorem after_budget (m : Memory α n) (w : World α κ) (k : Nat) :
    (after s m w k).progress.evaluator.budget = s.options.evaluations := by
  refine after_invariant (P := fun st : State α κ n => st.progress.evaluator.budget = s.options.evaluations) rfl
    (fun h he => ?_) k
  exact h.keeps (J := fun e _ => e.budget = s.options.evaluations) (fun _ he => Evaluator.call_budget.trans he)
    (fun _ he => he) (fun _ he => he) he

/-- If the first evaluation is allowed, then nobody but the callback lets an exhausted budget escape. -/
theorem Turn.escaped_budget (hs : s.objective.Quiet) {st st' : State α κ n} (h : Turn s st st')
    (hleft : ∀ m, st.phase = .evaluating m → st.progress.evaluator.exhausted = false) {m : Memory α n} {c : Cap}
    (hend : st'.phase = .escaped m (.budget c)) :
    ∃ f r w, s.callback = some f ∧ (f r w).1 = .error (.budget c) := by
  cases h with
  | firstEscaped h =>
      cases hend
      cases (hleft _ rfl).symm.trans (Evaluator.call_refused hs (congrArg Prod.fst h)).1
  | unshown _ _ hwhy =>
      cases hend
      exact hwhy c rfl
  | thrown _ h =>
      cases hend
      rcases sought_ends s _ _ _ _ with ⟨why, hunmet⟩ | ⟨l, hends⟩
      · cases hunmet.symm.trans h
      · rcases hends.escaped_last (congrArg Prod.fst h) with ⟨t, ew, ht⟩ | ⟨a, ha⟩
        · exact absurd rfl (Evaluator.attempt_eq_escaped ht c)
        · cases ha
  | start | first | firstFailed | decided | undecided | along | toward | reset | stuck | misfit | failed | spent | lost
  | again | accepted | overfull => cases hend

theorem after_escaped (hs : s.objective.Quiet) {N : Nat} (hcap : s.options.evaluations.Is N) (hN : 1 ≤ N) {m : Memory α n}
    {w : World α κ} {k : Nat} {m' : Memory α n} {c : Cap} (hend : (after s m w k).phase = .escaped m' (.budget c)) :
    ∃ f r w, s.callback = some f ∧ (f r w).1 = .error (.budget c) := by
  refine after_induction (P := fun st : State α κ n => ∀ m c, st.phase = .escaped m (.budget c) →
    ∃ f r w, s.callback = some f ∧ (f r w).1 = .error (.budget c)) (fun m c h => by cases h)
    (fun j hturn _ m c hend => hturn.escaped_budget hs (fun m hphase => ?_) hend) k m' c hend
  have hzero := ((after_counted hs _ w j).before (by rw [hphase]; rfl)).1
  rw [Evaluator.exhausted, after_budget, hzero, ← Bool.not_eq_true, hcap.reached_iff]
  omega

theorem Ending.code {st st' : State α κ n} {c : Option (Point α n)} {r : Reason α} (h : Ending s st st' c r) :
    r.code ≠ .invalidInput := by
  cases h with
  | judged _ _ hr => cases hr <;> exact Code.noConfusion
  | unevaluated | stuck | failed | spent | lost => exact Code.noConfusion

theorem after_code {m : Memory α n} {w : World α κ} {k : Nat} {m' : Memory α n} {c : Option (Point α n)} {r : Reason α}
    (hend : (after s m w k).phase = .ended m' c r) : r.code ≠ .invalidInput := by
  refine after_invariant (P := fun st : State α κ n => ∀ m c r, st.phase = .ended m c r → r.code ≠ .invalidInput)
    (fun m c r h => ?_) (fun h _ _ _ _ hend => (h.ending hend).code) k _ _ _ hend
  cases h

end Run

namespace Solver

variable {α κ : Type} [Scalar α] {v : Solver α κ} {offer : Offer α (World α κ)} {start : Start α}

theorem trace_tallied (v : Solver α κ) (p : Problem α (World α κ)) (w : World α κ) (k : Nat) :
    Evaluator.Tallied p.options.evaluations (v.trace p w k).progress.evaluator
      (v.watched.trace p.watched (w.watched []) k).world.calls := by
  have hcalls : ((w.watched []).enter v.id p.options.verbosity).1.calls = [] := calls_enter _ _ _
  have htallied := Run.after_tallied (s := v.toSetup p) (.renew v.memory p.n p.options.depth) hcalls k
  rw [← v.trace_watched p w k]
  exact htallied

/-- The objective is called as often as the answer says, and not more often than it may be. -/
theorem calls_length {options : Except (Fault α) (Options α)} {p : Problem α (World α κ)}
    (hp : prepare options offer start = .ok p) {w : World α κ} {a : Answer α}
    (h : (v.minimize offer start options w).1 = .ok a) :
    (v.calls offer start options w).length = a.status.evaluations ∧
      ∀ k, p.options.evaluations.Is k → a.status.evaluations ≤ k := by
  obtain ⟨k, m, c, r, -, rfl, -, hcalls⟩ := minimize_answer hp h
  have htallied := trace_tallied v p w k
  rw [hcalls, answer_status]
  exact ⟨htallied.count.symm, htallied.within⟩

theorem square_quiet (f : Objective ℝ (World ℝ Unit)) (hf : Offer.adapt (.function square) = .ok f) : f.Quiet := by
  cases hf
  intro x w c
  nofun

noncomputable def onceOptions : Options ℝ := { Options.standard with iterations := .whole 1 }

noncomputable def onceProblem : Problem ℝ (World ℝ Unit) :=
  { squareProblem with options := onceOptions, start := (Bounds.free 1).project (squareAt (1 + 1)).x }

theorem prepare_once : prepare (.ok onceOptions) (.function square) (.array [1] [1 + 1]) = .ok onceProblem := rfl

theorem onceOptions_checked : onceOptions.Checked := { Options.standard_accepted.checked with }

theorem squaring_once : Squaring (squareSolver.setup onceProblem) (1 + 1) where
  objective := rfl
  bounds := rfl
  start := Bounds.project_free _
  line := rfl
  tolerance := rfl
  iterations := rfl
  evaluations := rfl
  one_le := by norm_num
  le := by norm_num

/-- From two the square is searched once, down to one, where the run ends for want of iterations. -/
theorem trace_once : ∃ m p w', squareSolver.trace onceProblem { session := {}, client := () } 7 =
    ⟨.ended m (some (squareAt 1)) (.iterations (.whole 1)), p, w'⟩ ∧ p.iterations = 1 ∧
      p.evaluator = { budget := .whole 1000, count := 2, best := some (squareAt 1) } := by
  let s : Setup ℝ Unit 1 := squareSolver.setup onceProblem
  have hs : s.Checked := prepare_checked squareSolver onceOptions_checked prepare_once
  have hnorm : ¬s.bounds.projectedGradientNorm (squareAt 1).x (squareAt 1).g ≤ s.options.gTolerance := by
    have hfree : s.bounds = .free 1 := rfl
    rw [hfree, Bounds.projectedGradientNorm_free, squareAt_norm zero_le_one]
    norm_num [s, setup, onceProblem, onceOptions, Options.standard]
  have hdecrease : Run.relativeDecrease (squareAt (1 + 1)).f (squareAt 1).f = 3 / 4 := by
    norm_num [Run.relativeDecrease, squareAt]
  have hlarge : s.options.fTolerance * Scalar.epsilon < 3 / 4 := by
    norm_num [s, setup, onceProblem, onceOptions, Options.standard, Scalar.epsilon]
  have hreason (m : Memory ℝ 1) (p : Progress ℝ 1) (hone : p.iterations = 1) :
      Run.reason? s { point := squareAt 1, previous := some (squareAt (1 + 1)).f, memory := m }
        (s.bounds.projectedGradientNorm (squareAt 1).x (squareAt 1).g) p = some (.iterations (.whole 1)) := by
    have hcap : s.options.iterations = .whole 1 := rfl
    have hpos : ¬(3 / 4 : ℝ) ≤ 0 := by norm_num
    simp [Run.reason?, hnorm, hdecrease, hlarge.not_ge, hpos, hcap, hone, Cap.reached]
  have hpoint : squareAt (1 + 1 - 1) = squareAt 1 := by rw [add_sub_cancel_right]
  rw [← hpoint] at hreason ⊢
  exact squaring_once.after_seven hs rfl hreason _

theorem minimize_once : (squareSolver.minimize (.function square) (.array [1] [1 + 1]) (.ok onceOptions)
    { session := {}, client := () }).1 =
      .ok (.evaluated (squareAt 1).x.toList (squareAt 1).f (squareAt 1).g.toList
        { reason := .iterations (.whole 1), iterations := 1, evaluations := 2 }) := by
  obtain ⟨m, p, w', hend, hone, hevaluator⟩ := trace_once
  rw [minimize_of_ended prepare_once rfl (by decide) (congrArg State.phase hend), hend, hone, hevaluator]
  rfl

/-- The evaluations are told as they were made: every call of the objective is counted, whether it failed or not, by the
run as well as by its searches, and nothing else is. Only a callback can let an exhausted budget escape. -/
theorem minimize_evaluations (v : Solver α κ) (start : Start α) {o : Options α} {N : Nat} (hcap : o.evaluations.Is N)
    (hN : 1 ≤ N) (hquiet : ∀ f, offer.adapt = .ok f → f.Quiet) (w : World α κ) :
    (∀ p, prepare (.ok o) offer start = .ok p →
      (∀ a, (v.minimize offer start (.ok o) w).1 = .ok a →
        (v.calls offer start (.ok o) w).length = a.status.evaluations ∧ a.status.evaluations ≤ N ∧
          (v.minimize offer start (.ok o) w).2.1.evaluations = a.status.evaluations ∧
          ∃ k, (v.trace p w k).phase.final = true ∧
            a.status.evaluations = 1 + ((v.searches p w k).map fun f => f.found.evaluations).sum) ∧
      ∀ (e : Evaluator (Vector α p.n) α p.n) x w' why, (e.call p.objective Tensor.ofVector x w').1 = .error why →
        (∀ c, why = .budget c → (e.call p.objective Tensor.ofVector x w').2 = (e, w')) ∧
          ((∀ c, why ≠ .budget c) → (e.call p.objective Tensor.ofVector x w').2.1.count = e.count + 1)) ∧
    (∀ c, (v.minimize offer start (.ok o) w).1 = .error (.budget c) →
      ∃ f r w', v.callback = some f ∧ (f r w').1 = .error (.budget c)) ∧
    ∀ options a, (v.minimize offer start options w).1 = .ok a → a.status.reason.code = .invalidInput →
      v.calls offer start options w = [] ∧ (v.minimize offer start options w).2.2.client = w.client := by
  refine ⟨fun p hp => ?_, fun c hc => ?_, fun options a ha hcode => ?_⟩
  · obtain ⟨ho, hadapt⟩ := prepare_options hp
    have hf : p.objective.Quiet := hquiet _ hadapt
    refine ⟨fun a ha => ?_, fun e x w' why hwhy => ⟨?_, fun hne => ?_⟩⟩
    · obtain ⟨hlength, hle⟩ := calls_length hp ha
      obtain ⟨k, m, c, r, hend, rfl, hsolver, -⟩ := minimize_answer hp ha
      have hcounted := Run.after_counted (s := v.toSetup p) hf (.renew v.memory p.n p.options.depth)
        (w.enter v.id p.options.verbosity).1 k
      have hphase : (Run.after (v.toSetup p) (.renew v.memory p.n p.options.depth)
        (w.enter v.id p.options.verbosity).1 k).phase = .ended m c r := hend
      refine ⟨hlength, hle N (ho ▸ hcap), by rw [answer_status, hsolver], k, by rw [hend]; rfl, ?_⟩
      rw [answer_status]
      refine hcounted.since ?_ fun m' why hescaped => ?_
      · rw [hphase]
        rfl
      · cases hphase.symm.trans hescaped
    · rintro c rfl
      exact (Evaluator.call_refused hf hwhy).2
    · refine Evaluator.call_count fun c hc => hne c ?_
      cases hwhy.symm.trans hc
      rfl
  · rcases minimize_error hc with h | h | h | h | ⟨p, k, m, hp, hend⟩
    · cases h
    · cases h
    · exact absurd h prepare_ne_budget
    · cases h
    · obtain ⟨rfl, hadapt⟩ := prepare_options hp
      exact Run.after_escaped (s := v.toSetup p) (hquiet _ hadapt) hcap hN hend
  · cases hp : prepare options offer start with
    | ok p =>
        obtain ⟨k, m, c, r, hend, rfl, -, -⟩ := minimize_answer hp ha
        rw [answer_status] at hcode
        exact absurd hcode (Run.after_code hend)
    | error why => exact ⟨calls_of_error why hp, client_of_error why hp⟩

theorem minimize_evaluations_once : (Cap.whole 1000).Is 1000 ∧
    (∀ f, Offer.adapt (.function square) = .ok f → f.Quiet) ∧
    (squareSolver.minimize (.function square) (.array [1] [1 + 1]) (.ok onceOptions)
      { session := {}, client := () }).1 =
        .ok (.evaluated (squareAt 1).x.toList (squareAt 1).f (squareAt 1).g.toList
          { reason := .iterations (.whole 1), iterations := 1, evaluations := 2 }) ∧
    (squareSolver.calls (.function square) (.array [1] [1 + 1]) (.ok onceOptions)
      { session := {}, client := () }).length = 2 ∧
    ∃ k, (squareSolver.trace onceProblem { session := {}, client := () } k).phase.final = true ∧
      ((squareSolver.searches onceProblem { session := {}, client := () } k).map fun f => f.found.evaluations).sum = 1 := by
  have hcap : (Cap.whole 1000).Is 1000 := .whole 1000
  obtain ⟨hrun, -, -⟩ := minimize_evaluations squareSolver (.array [1] [1 + 1]) (o := onceOptions) hcap (by decide)
    square_quiet { session := {}, client := () }
  obtain ⟨hlength, -, -, k, hfinal, hsum⟩ := (hrun _ prepare_once).1 _ minimize_once
  have hone : 1 + 1 = 1 + ((squareSolver.searches onceProblem { session := {}, client := () } k).map
    fun f => f.found.evaluations).sum := hsum
  exact ⟨hcap, square_quiet, minimize_once, hlength, k, hfinal, (Nat.add_left_cancel hone).symm⟩

end Solver

end BoxBfgs
