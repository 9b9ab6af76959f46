import BoxBfgs.Proofs.Run.Termination

namespace BoxBfgs

/-- The iterate that a run is at. -/
def Phase.current? {α : Type} {n : Nat} : Phase α n → Option (Iterate α n)
  | .check it | .cauchy it | .subspace it _ | .search it _ => some it
  | .start _ | .evaluating _ | .ended _ _ _ | .escaped _ _ => none

namespace Run

variable {α κ : Type} [Scalar α] {n : Nat} {s : Setup α κ n} {it it' : Iterate α n} {p p' : Progress α n}
  {w w' : World α κ} {its front : List (Iterate α n)} {found : List (Search α n)}

/-- Iterates each of which knows the value of the one before, as the first one knows of none. -/
inductive Linked : List (Iterate α n) → Prop
  | nil : Linked []
  | first {it : Iterate α n} (h : it.previous = none) : Linked [it]
  | next {front : List (Iterate α n)} {a b : Iterate α n} (ha : Linked (front ++ [a]))
      (hb : b.previous = some a.point.f) : Linked (front ++ [a] ++ [b])

omit [Scalar α] in
theorem Linked.before (h : Linked (front ++ [it])) {f : α} (hf : it.previous = some f) :
    ∃ rest a, front = rest ++ [a] ∧ a.point.f = f := by
  generalize hl : front ++ [it] = l at h
  cases h with
  | nil => simp at hl
  | first hnone =>
      obtain ⟨-, hit⟩ := List.append_inj' (hl.trans (List.nil_append _).symm) rfl
      cases hit
      cases hf.symm.trans hnone
  | next _ hb =>
      obtain ⟨hfront, hit⟩ := List.append_inj' hl rfl
      cases hit
      cases hf.symm.trans hb
      exact ⟨_, _, hfront, rfl⟩

/-- The iterates of a run: the last one is where the run is, or where it has ended. -/
inductive Trailed : Phase α n → List (Iterate α n) → Prop
  | start {m : Memory α n} : Trailed (.start m) []
  | evaluating {m : Memory α n} : Trailed (.evaluating m) []
  | going {ph : Phase α n} {it last : Iterate α n} {front : List (Iterate α n)} (hph : ph.current? = some it)
      (hl : Linked (front ++ [last])) (hit : Alike last it) : Trailed ph (front ++ [last])
  | ended {m : Memory α n} {r : Reason α} {last : Iterate α n} {front : List (Iterate α n)}
      (hl : Linked (front ++ [last])) : Trailed (.ended m (some last.point) r) (front ++ [last])
  | unevaluated {m : Memory α n} {r : Reason α} : Trailed (.ended m none r) []
  | escaped {m : Memory α n} {why : Fault α} {its : List (Iterate α n)} (hl : Linked its) :
      Trailed (.escaped m why) its

theorem Turning.current {ph : Phase α n} (h : Turning s ph it) : ph.current? = some it := by
  cases h <;> rfl

namespace Trailed

variable {ph ph' : Phase α n}

omit [Scalar α] in
theorem linked (h : Trailed ph its) : Linked its := by
  cases h with
  | start | evaluating | unevaluated => exact .nil
  | going _ hl | ended hl | escaped hl => exact hl

omit [Scalar α] in
theorem current (h : Trailed ph its) (hph : ph.current? = some it) :
    ∃ front last, its = front ++ [last] ∧ Linked (front ++ [last]) ∧ Alike last it := by
  cases h with
  | going hph' hl hit =>
      cases hph.symm.trans hph'
      exact ⟨_, _, rfl, hl, hit⟩
  | start | evaluating | ended | unevaluated | escaped => cases hph

omit [Scalar α] in
theorem keep (h : Trailed ph its) (hph : ph.current? = some it) (hit : Alike it it') (hph' : ph'.current? = some it') :
    Trailed ph' its := by
  obtain ⟨front, last, rfl, hl, hlast⟩ := h.current hph
  exact .going hph' hl ⟨hit.point.trans hlast.point, hit.previous.trans hlast.previous⟩

omit [Scalar α] in
theorem close (h : Trailed ph its) (hph : ph.current? = some it) (m : Memory α n) (r : Reason α) :
    Trailed (.ended m (some it.point) r) its := by
  obtain ⟨front, last, rfl, hl, hlast⟩ := h.current hph
  rw [hlast.point]
  exact .ended hl

end Trailed

theorem Turn.trailed {st st' : State α κ n} (h : Turn s st st') (ht : Trailed st.phase its) :
    Trailed st'.phase (its ++ st'.phase.iterate?.toList) := by
  have hstay {ph : Phase α n} (hph : ph.iterate? = none) : its ++ ph.iterate?.toList = its := by
    rw [hph, Option.toList_none, List.append_nil]
  cases h with
  | start =>
      cases ht with
      | start => exact .evaluating
      | going hph => cases hph
  | first =>
      cases ht with
      | evaluating =>
          rw [← List.nil_append ([] ++ _)]
          exact .going rfl (.first rfl) ⟨rfl, rfl⟩
      | going hph => cases hph
  | firstFailed =>
      cases ht with
      | evaluating => exact .unevaluated
      | going hph => cases hph
  | firstEscaped | unshown | misfit | thrown | overfull =>
      rw [hstay rfl]
      exact .escaped ht.linked
  | decided | failed | spent | lost =>
      rw [hstay rfl]
      exact ht.close rfl _ _
  | stuck hturning =>
      rw [hstay rfl]
      exact ht.close hturning.current _ _
  | undecided | toward =>
      rw [hstay rfl]
      exact ht.keep rfl ⟨rfl, rfl⟩ rfl
  | along _ hit =>
      rw [hstay rfl]
      exact ht.keep rfl hit rfl
  | reset hturning _ _ hit =>
      rw [hstay rfl]
      exact ht.keep hturning.current hit rfl
  | again _ _ _ _ _ _ hit =>
      rw [hstay rfl]
      exact ht.keep rfl hit rfl
  | accepted =>
      obtain ⟨front, last, rfl, hl, hlast⟩ := ht.current rfl
      refine .going rfl (hl.next ?_) ⟨rfl, rfl⟩
      rw [hlast.point]

theorem after_trailed (m : Memory α n) (w : World α κ) (k : Nat) :
    Trailed (after s m w k).phase (iterates s m w k) :=
  trace_invariant (P := fun st its _ => Trailed st.phase its) .start (fun h ht => h.trailed ht) k

/-- There is one iterate more than there are iterations. -/
def Numbered (st : State α κ n) (its : List (Iterate α n)) : Prop :=
  ∀ it, st.phase.current? = some it → its.length = st.progress.iterations + 1

theorem Turn.numbered {M : Nat} {st st' : State α κ n} (h : Turn s st st') (hp : Paced M st) (ht : Trailed st.phase its)
    (hn : Numbered st its) : Numbered st' (its ++ st'.phase.iterate?.toList) := by
  intro it hit
  cases h with
  | start | firstFailed | firstEscaped | decided | unshown | stuck | misfit | thrown | failed | spent | lost
  | overfull => cases hit
  | first =>
      have hzero : _ = 0 ∧ _ = 0 := hp
      cases ht with
      | evaluating => exact congrArg (· + 1) hzero.1.symm
      | going hph => cases hph
  | undecided hstill =>
      simpa [Phase.iterate?, hstill.iterations] using hn _ rfl
  | along | toward =>
      simpa [Phase.iterate?] using hn _ rfl
  | reset hturning hstill =>
      simpa [Phase.iterate?, hstill.iterations] using hn _ hturning.current
  | again _ _ _ hstill =>
      simpa [Phase.iterate?, hstill.iterations] using hn _ rfl
  | accepted _ _ _ hstill =>
      simpa [Phase.iterate?, hstill.iterations] using hn _ rfl

theorem after_numbered {M : Nat} (hM : s.options.iterations.Is M) (m : Memory α n) (w : World α κ) (k : Nat) :
    Numbered (after s m w k) (iterates s m w k) := by
  -- At the first evaluation there are no iterates and no iterations yet, which the other two invariants know.
  have hall := trace_invariant (P := fun st its _ => Paced M st ∧ Trailed st.phase its ∧ Numbered st its) (s := s)
    (m := m) (w := w) ⟨⟨rfl, rfl⟩, .start, fun it hit => by cases hit⟩
    (fun h hP => ⟨h.paced hM hP.1, h.trailed hP.2.1, h.numbered hP.1 hP.2.1 hP.2.2⟩) k
  exact hall.2.2

/-- After a failure the last search accepted nothing, no iteration was completed since, and the memory was given up. -/
def Retried (st : State α κ n) (found : List (Search α n)) : Prop :=
  ∀ it, st.phase.current? = some it → st.progress.failures ≠ 0 →
    ∃ front last, found = front ++ [last] ∧ last.found.point = none ∧ last.iterations = st.progress.iterations ∧
      it.memory.isEmpty = true

theorem Turn.retried {M : Nat} {st st' : State α κ n} (h : Turn s st st') (hp : Paced M st) (hr : Retried st found) :
    Retried st' (found ++ (search? s st).toList) := by
  intro it hit hfailed
  cases h with
  | start | firstFailed | firstEscaped | decided | unshown | stuck | misfit | thrown | failed | spent | lost
  | overfull => cases hit
  | first =>
      have hzero : _ = 0 ∧ _ = 0 := hp
      exact absurd hzero.2 hfailed
  | undecided hstill =>
      have hzero : _ ≤ M ∧ _ = 0 := hp
      exact absurd (hstill.failures.trans hzero.2) hfailed
  | along _ _ hm =>
      cases hit
      obtain ⟨front, last, rfl, hnone, hsame, hempty⟩ := hr _ rfl hfailed
      exact ⟨front, last, List.append_nil _, hnone, hsame, hm.trans hempty⟩
  | toward =>
      cases hit
      obtain ⟨front, last, rfl, hnone, hsame, hempty⟩ := hr _ rfl hfailed
      exact ⟨front, last, List.append_nil _, hnone, hsame, hempty⟩
  | reset hturning hstill _ _ _ hm =>
      cases hit
      rw [hstill.failures] at hfailed
      obtain ⟨front, last, rfl, hnone, hsame, -⟩ := hr _ hturning.current hfailed
      rw [search?_of_turning hturning]
      exact ⟨front, last, List.append_nil _, hnone, hsame.trans hstill.iterations.symm, hm⟩
  | again hd hsought hnone hstill _ _ _ hm =>
      cases hit
      rw [search?_of_ok hd hsought]
      exact ⟨found, _, rfl, hnone, hstill.iterations.symm, hm⟩
  | accepted _ _ _ hstill => exact absurd hstill.failures hfailed

theorem after_retried {M : Nat} (hM : s.options.iterations.Is M) (m : Memory α n) (w : World α κ) (k : Nat) :
    Retried (after s m w k) (searches s m w k) := by
  have hboth := trace_invariant (P := fun st _ found => Paced M st ∧ Retried st found) (s := s) (m := m) (w := w)
    ⟨⟨rfl, rfl⟩, fun it hit => by cases hit⟩ (fun h hP => ⟨h.paced hM hP.1, h.retried hP.1 hP.2⟩) k
  exact hboth.2

end Run

end BoxBfgs
