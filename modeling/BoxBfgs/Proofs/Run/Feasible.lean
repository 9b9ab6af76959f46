import BoxBfgs.Proofs.Run.Exact
import BoxBfgs.Proofs.Search.Visits

namespace BoxBfgs

namespace Phase

/-- The point that a run has come to. -/
def point? {n : Nat} : Phase ℝ n → Option (Point ℝ n)
  | .start _ | .evaluating _ | .escaped _ _ => none
  | .check it | .cauchy it | .subspace it _ | .search it _ => some it.point
  | .ended _ c _ => c

end Phase

namespace Run

variable {κ : Type} {n : Nat} {s : Setup ℝ κ n} {st : State ℝ κ n} {it it' : Iterate ℝ n} {d : Vector ℝ n}
  {p : Progress ℝ n} {w : World ℝ κ}

/-- The points that are kept apart from the current one lie in the box. -/
structure Within (b : Box ℝ n) (p : Progress ℝ n) : Prop where
  best : ∀ q, p.evaluator.best = some q → b.Inside q.x
  history : ∀ r ∈ p.history, ∃ x : Vector ℝ n, r.x = x.toList ∧ b.Inside x

structure Feasible (s : Setup ℝ κ n) (st : State ℝ κ n) : Prop where
  point : ∀ q, st.phase.point? = some q → s.bounds.Inside q.x
  progress : Within s.bounds.toBox st.progress

theorem inside_none {b : Box ℝ n} : ∀ r : Point ℝ n, none = some r → b.Inside r.x := by
  rintro r ⟨⟩

theorem inside_some {b : Box ℝ n} {q : Point ℝ n} (h : b.Inside q.x) : ∀ r, some q = some r → b.Inside r.x := by
  rintro r ⟨⟩
  exact h

section

variable (hx : s.bounds.Inside it.point.x) (hp : Within s.bounds.toBox p)

include hx hp

theorem breakdown_feasible (why : Obstacle ℝ) : Feasible s (breakdown s it why p w) := by
  rw [breakdown]
  split
  · exact ⟨inside_some hx, hp⟩
  · exact ⟨inside_some hx, hp.best, hp.history⟩

theorem unsolved_feasible (why : Unsolved ℝ) : Feasible s (unsolved s it why p w) := by
  cases why with
  | breakdown why => exact breakdown_feasible hx hp _
  | nonFinite => exact ⟨inside_none, hp⟩

theorem rejected_feasible (outcome : Outcome) : Feasible s (rejected s it outcome p w) := by
  simp only [rejected]
  split
  · exact ⟨inside_some hx, hp⟩
  · split
    · exact ⟨inside_some hx, hp.best, hp.history⟩
    · exact ⟨inside_some hx, hp.best, hp.history⟩

theorem record_within (previous norm : ℝ) : Within s.bounds.toBox (record s it previous norm p w).2.1 := by
  have hlonger : Within s.bounds.toBox { p with
      notes := []
      history := if s.options.keepHistory.holds then p.history ++ [report it previous norm p] else p.history } := by
    refine ⟨hp.best, fun r hr => ?_⟩
    dsimp only at hr
    split_ifs at hr
    · rcases List.mem_append.mp hr with hr | hr
      · exact hp.history r hr
      · rw [List.mem_singleton.mp hr]
        exact ⟨it.point.x, rfl, hx⟩
    · exact hp.history r hr
  rw [record]
  split
  · exact hp
  · dsimp only
    split
    · exact hlonger
    · exact hlonger

theorem checking_feasible : Feasible s (checking s it p w) := by
  cases hprevious : it.previous with
  | none =>
      simp only [checking, hprevious]
      split
      · exact ⟨inside_some hx, hp⟩
      · exact ⟨inside_some hx, hp⟩
  | some f =>
      have hrecord := record_within (w := w) hx hp f (s.bounds.projectedGradientNorm it.point.x it.point.g)
      simp only [checking, hprevious]
      split
      · rename_i hr
        rw [hr] at hrecord
        exact ⟨inside_none, hrecord⟩
      · rename_i hr
        rw [hr] at hrecord
        split
        · exact ⟨inside_some hx, hrecord⟩
        · exact ⟨inside_some hx, hrecord⟩

theorem cauchy_feasible : Feasible s (cauchy s it p w) := by
  rw [cauchy]
  split
  · exact ⟨inside_some hx, hp⟩
  · dsimp only
    split
    · refine unsolved_feasible ?_ hp _
      exact hx
    · exact ⟨inside_some hx, hp⟩

theorem subspace_feasible (c : Option (CauchyPoint ℝ n it.memory.size)) : Feasible s (subspace s it c p w) := by
  cases c with
  | none => exact ⟨inside_some hx, hp⟩
  | some c =>
      simp only [subspace]
      split
      · exact unsolved_feasible hx hp _
      · exact ⟨inside_some hx, hp⟩

end

theorem evaluating_feasible (hs : s.Checked) (hp : Within s.bounds.toBox p) (m : Memory ℝ n) :
    Feasible s (evaluating s m p w) := by
  have hbest : ∀ q, (p.evaluator.call s.objective Tensor.ofVector s.start w).2.1.best = some q → s.bounds.Inside q.x :=
    Evaluator.call_best hp.best hs.start
  simp only [evaluating]
  split
  · rename_i hq
    rw [hq] at hbest
    refine ⟨inside_some ?_, hbest, hp.history⟩
    rw [Evaluator.call_x hq]
    exact hs.start
  · rename_i hq
    rw [hq] at hbest
    exact ⟨inside_none, hbest, hp.history⟩
  · rename_i hq
    rw [hq] at hbest
    exact ⟨inside_none, hbest, hp.history⟩

theorem accepted_feasible {new : Point ℝ n} (hx : s.bounds.Inside new.x) (hp : Within s.bounds.toBox p)
    (outcome : Outcome) (t : ℝ) : Feasible s (accepted s it outcome t new p w) := by
  have hnote : Within s.bounds.toBox (if outcome = .converged then (p, w) else note s (.warned outcome t) p w).1 := by
    split_ifs
    · exact hp
    · exact ⟨hp.best, hp.history⟩
  simp only [accepted]
  split
  · exact ⟨inside_some hx, hnote.best, hnote.history⟩
  · exact ⟨inside_some hx, hnote.best, hnote.history⟩
  · exact ⟨inside_none, hnote.best, hnote.history⟩

/-- Whatever a search comes to, it asked for points of the box only. -/
theorem searched_best (hs : s.Checked) (hp : Within s.bounds.toBox p) :
    ∀ q, (searched s it d p w).2.1.best = some q → s.bounds.Inside q.x := by
  -- The invariant of the search is about the evaluator that its trials hand on.
  refine Line.search_world (J := fun ew : Evaluator (Vector ℝ n) ℝ n × World ℝ κ =>
    ∀ q, ew.1.best = some q → s.bounds.Inside q.x) (fun t ew h => ?_) _ _ _ _ _ hp.best
  rw [evaluation, Evaluator.attempt_snd]
  exact Evaluator.call_best h (trial_inside hs _ _)

theorem searching_feasible (hs : s.Checked) (hd : Falling s it d) (hx : s.bounds.Inside it.point.x)
    (hp : Within s.bounds.toBox p) : Feasible s (searching s it d p w) := by
  have hbest : ∀ q, (searched s it d p w).2.1.best = some q → s.bounds.Inside q.x := searched_best hs hp
  have hcases : Searched s it d p w (searching s it d p w) := searching_searched hd
  generalize searching s it d p w = st at hcases
  cases hcases with
  | escaped h =>
      rw [h] at hbest
      exact ⟨inside_none, hbest, hp.history⟩
  | failed h =>
      rw [h] at hbest
      exact ⟨inside_some hx, hbest, hp.history⟩
  | rejected h =>
      rw [h] at hbest
      refine rejected_feasible hx ?_ _
      exact ⟨hbest, hp.history⟩
  | accepted h hnew =>
      obtain ⟨hat, -⟩ := searched_new hs hd h hnew
      rw [h] at hbest
      refine accepted_feasible ?_ ?_ _ _
      · rw [hat]
        exact trial_inside hs _ _
      · exact ⟨hbest, hp.history⟩

theorem step_feasible (hs : s.Checked) (hd : Descends s st.phase) (h : Feasible s st) : Feasible s (step s st) := by
  obtain ⟨phase, p, w⟩ := st
  obtain ⟨hx, hp⟩ := h
  cases hd with
  | start => exact ⟨inside_none, hp⟩
  | evaluating => exact evaluating_feasible hs hp _
  | check => exact checking_feasible (hx _ rfl) hp
  | cauchy => exact cauchy_feasible (hx _ rfl) hp
  | newton => exact subspace_feasible (w := w) (hx _ rfl) hp none
  | subspace => exact subspace_feasible (w := w) (hx _ rfl) hp (some _)
  | search _ hd => exact searching_feasible hs hd (hx _ rfl) hp
  | ended => exact ⟨hx, hp⟩
  | escaped => exact ⟨hx, hp⟩

theorem Reachable.feasible (hs : s.Checked) {m : Memory ℝ n} (h : Reachable s m w st) : Feasible s st := by
  induction h with
  | initial => exact ⟨inside_none, inside_none, nofun⟩
  | step h ih => exact step_feasible hs (h.descends hs) ih

/-- The steps at which a search tries its line. -/
def Tries (s : Setup ℝ κ n) (it : Iterate ℝ n) (d : Vector ℝ n) (p : Progress ℝ n) (w : World ℝ κ) (t : ℝ) : Prop :=
  ∃ trials l kept ew, Line.Visits (evaluation s it d) s.options.line it.point.f (Vec.dot it.point.g d)
    (initialStep s p.iterations it.point.g (longestStep s it.point.x d)) (longestStep s it.point.x d) (p.evaluator, w)
    trials l kept ew ∧ l.step = t

/-- The points for which a state asks the objective. -/
inductive Asks (s : Setup ℝ κ n) : State ℝ κ n → Vector ℝ n → Prop
  | first {m : Memory ℝ n} {p : Progress ℝ n} {w : World ℝ κ} : Asks s ⟨.evaluating m, p, w⟩ s.start
  | trial {it : Iterate ℝ n} {d : Vector ℝ n} {p : Progress ℝ n} {w : World ℝ κ} {t : ℝ} (h : Tries s it d p w t) :
      Asks s ⟨.search it d, p, w⟩ (trial s it.point.x d t)

/-- A state of a run that keeps to the box without being held back by it. -/
structure Straight (s : Setup ℝ κ n) (st : State ℝ κ n) : Prop where
  asks : ∀ x, Asks s st x → s.bounds.Inside x
  trials : ∀ it d, st.phase = .search it d → ∀ t, Tries s it d st.progress st.world t →
    s.bounds.Inside (it.point.x + Vec.scale t d) ∧ trial s it.point.x d t = it.point.x + Vec.scale t d
  accepted : ∀ it d it', st.phase = .search it d → (step s st).phase = .check it' →
    it'.point.x - it.point.x = Vec.scale (step s st).progress.step d

/-- Up to the longest step the projection onto the box does nothing. -/
theorem trial_eq (hs : s.Checked) {x : Vector ℝ n} (hx : s.bounds.Inside x) {t : ℝ} (ht : 0 ≤ t)
    (hle : t ≤ longestStep s x d) :
    s.bounds.Inside (x + Vec.scale t d) ∧ trial s x d t = x + Vec.scale t d := by
  cases hu : s.bounds.unconstrained with
  | true => exact ⟨hs.bounds.inside_of_unconstrained hu _, if_pos hu⟩
  | false =>
      rw [longestStep, hu, if_neg Bool.false_ne_true] at hle
      have hin := Box.inside_of_le_maxStep hx ht hle
      refine ⟨hin, ?_⟩
      simp only [trial, hu, Bool.false_eq_true, if_false]
      exact Box.project_of_inside hin

theorem Tries.trial_eq (hs : s.Checked) (hx : s.bounds.Inside it.point.x) (hd : Falling s it d) {t : ℝ}
    (h : Tries s it d p w t) :
    s.bounds.Inside (it.point.x + Vec.scale t d) ∧ trial s it.point.x d t = it.point.x + Vec.scale t d := by
  obtain ⟨trials, l, kept, ew, hvisit, rfl⟩ := h
  obtain ⟨hc1, hc, hc2⟩ := hs.options.wolfe
  obtain ⟨hl, hgreatest, -⟩ := hvisit.sound hc1 hc hc2 hs.options.width.2 hd.slope (initialStep_pos hd.room _ _) hd.room
  exact Run.trial_eq hs hx hl.step_pos.le (hgreatest ▸ hl.step_le)

/-- The new point of a search lies along its direction, and its step is what was found. -/
theorem searched_along (hs : s.Checked) (hx : s.bounds.Inside it.point.x) (hd : Falling s it d)
    {found : Found ℝ (Point ℝ n)} {new : Point ℝ n} {ew : Evaluator (Vector ℝ n) ℝ n × World ℝ κ}
    (h : searched s it d p w = (.ok found, ew)) (hnew : found.point = some new) :
    0 < found.step ∧ new.x - it.point.x = Vec.scale found.step d := by
  obtain ⟨hat, hpos, hle, -⟩ := searched_new hs hd h hnew
  refine ⟨hpos, ?_⟩
  rw [hat, (trial_eq hs hx hpos.le hle).2]
  refine Vec.ext_get ?_
  rw [Vec.get_sub, Vec.get_add, add_sub_cancel_left]

theorem searching_straight (hs : s.Checked) (hx : s.bounds.Inside it.point.x) (hd : Falling s it d)
    (h : (searching s it d p w).phase = .check it') :
    it'.point.x - it.point.x = Vec.scale (searching s it d p w).progress.step d := by
  have hcases : Searched s it d p w (searching s it d p w) := searching_searched hd
  generalize searching s it d p w = st at h hcases
  cases hcases with
  | escaped => cases h
  | failed => cases h
  | rejected => exact absurd h rejected_ne_check
  | accepted hfound hnew =>
      obtain ⟨hpoint, -, hstep⟩ := accepted_check h
      rw [hpoint, hstep]
      exact (searched_along hs hx hd hfound hnew).2

theorem Reachable.straight (hs : s.Checked) {m : Memory ℝ n} (h : Reachable s m w st) : Straight s st := by
  have hst := h.descends hs
  refine ⟨fun x hask => ?_, fun it d hphase t ht => ?_, fun it d it' hphase hnext => ?_⟩
  · cases hask with
    | first => exact hs.start
    | trial => exact trial_inside hs _ _
  · rw [hphase] at hst
    cases hst with
    | search hgo hd => exact ht.trial_eq hs hgo.inside hd
  · rw [hphase] at hst
    cases hst with
    | search hgo hd =>
        simp only [Run.step, hphase] at hnext ⊢
        exact searching_straight hs hgo.inside hd hnext

section

variable {f : Objective ℝ (World ℝ κ)}

/-- An objective that answers as another one does in the box cannot be told from it. -/
theorem step_congr (hs : s.Checked)
    (hf : ∀ x, s.bounds.Inside x → ∀ w, f.call (.ofVector x) w = s.objective.call (.ofVector x) w) (st : State ℝ κ n) :
    step { s with objective := f } st = step s st := by
  obtain ⟨phase, p, w⟩ := st
  cases phase with
  | start | check | cauchy | subspace | ended | escaped => rfl
  | evaluating m =>
      simp only [step, evaluating]
      rw [Evaluator.call_congr (hf _ hs.start w)]
  | search it d =>
      have htrial (t : ℝ) (ew : Evaluator (Vector ℝ n) ℝ n × World ℝ κ) :
          ew.1.attempt f Tensor.ofVector d (trial { s with objective := f } it.point.x d t) ew.2 =
            ew.1.attempt s.objective Tensor.ofVector d (trial s it.point.x d t) ew.2 :=
        Evaluator.attempt_congr (hf _ (trial_inside hs _ _) _) d
      simp only [step, searching, htrial]
      rfl

theorem loop_congr (hs : s.Checked)
    (hf : ∀ x, s.bounds.Inside x → ∀ w, f.call (.ofVector x) w = s.objective.call (.ofVector x) w) (fuel : Nat)
    (st : State ℝ κ n) : loop { s with objective := f } fuel st = loop s fuel st := by
  induction fuel generalizing st with
  | zero => rfl
  | succ fuel ih => rw [loop, loop, step_congr hs hf, ih]

end

theorem cauchy_of_isEmpty (hu : s.bounds.unconstrained = false) (he : it.memory.isEmpty = true) :
    ∃ c w', cauchy s it p w = ⟨.subspace { it with memory := it.memory.keepFactor } (some c), p, w'⟩ := by
  have hkeep : it.memory.keepFactor.isEmpty = true := by rwa [Memory.keepFactor, if_pos he]
  obtain ⟨c, hc⟩ := Cauchy.point_of_isEmpty (b := s.bounds.toBox) hkeep it.point.x it.point.g
  simp only [cauchy, hu, hc, Bool.false_eq_true, if_false]
  exact ⟨c, _, rfl⟩

theorem subspace_of_isEmpty (he : it.memory.isEmpty = true) (c : CauchyPoint ℝ n it.memory.size) :
    ∃ d w', subspace s it (some c) p w = ⟨.search it d, p, w'⟩ := by
  obtain ⟨t, ht⟩ := Subspace.minimize_of_isEmpty he s.bounds.toBox it.point.x it.point.g c
  simp only [subspace, ht]
  exact ⟨t.direction, _, rfl⟩

theorem Falling.exists_tries (hs : s.Checked) (hd : Falling s it d) (p : Progress ℝ n) (w : World ℝ κ) :
    ∃ t, Tries s it d p w t := by
  obtain ⟨hc1, hc, hc2⟩ := hs.options.wolfe
  have hpos : 0 < min (initialStep s p.iterations it.point.g (longestStep s it.point.x d))
      (longestStep s it.point.x d) := lt_min (initialStep_pos hd.room _ _) hd.room
  obtain ⟨l, hl⟩ : ∃ l, Wolfe.start it.point.f (Vec.dot it.point.g d)
      (Scalar.least (initialStep s p.iterations it.point.g (longestStep s it.point.x d)) (longestStep s it.point.x d))
      (longestStep s it.point.x d) s.options.c1 s.options.c2 s.options.width 0 = .ok l := by
    rw [Scalar.least_real]
    exact ⟨_, Wolfe.start_eq_ok hc1 hc hc2 hd.slope hpos.le (min_le_right _ _)⟩
  exact ⟨l.step, [], l, none, _, .start hl, rfl⟩

/-- Within limits, too, a first gradient that counts leads to a search. -/
theorem exists_tries (hs : s.Checked) (hu : s.bounds.unconstrained = false)
    (hiterations : s.options.iterations.reached 0 = false) (hfirst : s.options.evaluations.reached 0 = false)
    (hsecond : s.options.evaluations.reached 1 = false)
    (hcall : ∀ w, s.objective.call (.ofVector s.start) w = (.answer (f, .ofVector g), w))
    (hnorm : s.options.gTolerance < s.bounds.projectedGradientNorm s.start g) (m : Memory ℝ n) (w : World ℝ κ) :
    ∃ st it d t, Reachable s m w st ∧ st.phase = .search it d ∧ Tries s it d st.progress st.world t := by
  obtain ⟨w', hthree⟩ := after_three (m := m) (w := w) hiterations hfirst hsecond hcall hnorm
  have hst : Reachable s m w (after s m w 3) := after_reachable s m w 3
  rw [hthree] at hst
  obtain ⟨c, w1, hcauchy⟩ := cauchy_of_isEmpty (s := s) (p := firstProgress s f g) (w := w') hu
    (rfl : (firstIterate s m f g).memory.isEmpty = true)
  have hpath : Reachable s m w (cauchy s (firstIterate s m f g) (firstProgress s f g) w') := hst.step
  rw [hcauchy] at hpath
  obtain ⟨d, w2, hsubspace⟩ := subspace_of_isEmpty (s := s) (p := firstProgress s f g) (w := w1) rfl c
  have hsearch : Reachable s m w (subspace s _ (some c) (firstProgress s f g) w1) := hpath.step
  rw [hsubspace] at hsearch
  cases hsearch.descends hs with
  | search _ hd =>
      obtain ⟨t, ht⟩ := hd.exists_tries hs (firstProgress s f g) w2
      exact ⟨_, _, d, t, hsearch, rfl, ht⟩

end Run

namespace Solver

variable {κ : Type} {v : Solver ℝ κ} {p : Problem ℝ (World ℝ κ)} {w : World ℝ κ}

theorem solve_congr (hs : (v.setup p).Checked) {f : Objective ℝ (World ℝ κ)}
    (hf : ∀ x, p.bounds.Inside x → ∀ w, f.call (.ofVector x) w = p.objective.call (.ofVector x) w) (w : World ℝ κ) :
    v.solve { p with objective := f } w = v.solve p w := by
  have hrun (m : Memory ℝ p.n) (w : World ℝ κ) :
      Run.run { v.setup p with objective := f } m w = Run.run (v.setup p) m w := Run.loop_congr hs hf _ _
  obtain ⟨n, objective, options, bounds, start⟩ := p
  simp only [setup] at hrun
  simp only [solve, hrun]
  -- What follows the run looks at its last state alone.
  generalize Run.run _ (Memory.renew v.memory n options.depth) (w.enter v.id options.verbosity).1 = st
  obtain ⟨phase, progress, world⟩ := st
  cases phase <;> rfl

theorem solve_history (v : Solver ℝ κ) (p : Problem ℝ (World ℝ κ)) (w : World ℝ κ) :
    (v.solve p w).2.1.history = (v.last p w).progress.history := by
  simp only [solve]
  split <;> rfl

theorem solve_answer {a : Answer ℝ} (h : (v.solve p w).1 = .ok a) : ∃ m c r status,
    (v.last p w).phase = .ended m c r ∧ a = answer p.start (chosen c r (v.last p w).progress.evaluator) status := by
  simp only [solve] at h
  split at h
  · rename_i m c r hphase
    cases h
    exact ⟨m, c, r, _, hphase, rfl⟩
  · cases h
  · cases h

/-- A minimisation that is not refused asks for points of the box only, keeps and returns no others, and no trial of
its searches has to be put back into the box. -/
theorem minimize_inside (v : Solver ℝ κ) {offer : Offer ℝ (World ℝ κ)} {start : Start ℝ} {o : Options ℝ}
    (ho : o.Checked) {p : Problem ℝ (World ℝ κ)} (hp : prepare (.ok o) offer start = .ok p) {w : World ℝ κ}
    (hw : w.isRunning v.id = false) :
    (∀ f : Objective ℝ (World ℝ κ),
      (∀ x, p.bounds.Inside x → ∀ w', f.call (.ofVector x) w' = p.objective.call (.ofVector x) w') →
        v.solve { p with objective := f } w = v.minimize offer start (.ok o) w) ∧
      (∀ r ∈ (v.minimize offer start (.ok o) w).2.1.history,
        ∃ x : Vector ℝ p.n, r.x = x.toList ∧ p.bounds.Inside x) ∧
      (∀ a, (v.minimize offer start (.ok o) w).1 = .ok a → ∃ x : Vector ℝ p.n, a.x = x.toList ∧ p.bounds.Inside x) ∧
      ∀ m w' st, Run.Reachable (v.setup p) m w' st → Run.Straight (v.setup p) st := by
  have hs := prepare_checked v ho hp
  have hmin : v.minimize offer start (.ok o) w = v.solve p w := by
    rw [minimize, hw, if_neg Bool.false_ne_true, hp]
  have hlast : Run.Feasible (v.setup p) (v.last p w) := (Run.run_reachable _ _ _).feasible hs
  rw [hmin]
  refine ⟨fun f hf => solve_congr hs hf w, fun r hr => ?_, fun a ha => ?_, fun m w' st hst => hst.straight hs⟩
  · rw [solve_history] at hr
    exact hlast.progress.history r hr
  · obtain ⟨m, c, r, status, hphase, rfl⟩ := solve_answer ha
    have hin : ∀ q, chosen c r (v.last p w).progress.evaluator = some q → p.bounds.Inside q.x := by
      intro q hq
      rw [chosen] at hq
      split_ifs at hq
      · refine hlast.point q ?_
        rw [hphase]
        exact hq
      · exact hlast.progress.best q hq
    cases hq : chosen c r (v.last p w).progress.evaluator with
    | none => exact ⟨p.start, rfl, hs.start⟩
    | some q => exact ⟨q.x, rfl, hin q hq⟩

noncomputable def unitBox : Bounds ℝ 1 := { lower := #v[.fin 0], upper := #v[.fin 1], kinds := #v[.both] }

theorem unitBox_built : unitBox.Built := by
  have h : Bounds.fromArrays (.each 1 [.fin 0]) (.each 1 [.fin 1]) .absent none = .ok ⟨1, unitBox⟩ := by
    norm_num [Bounds.fromArrays, Bounds.dimension, Bounds.Tags.rows?, Bounds.Side.rows?, Bounds.ofSides,
      Bounds.Side.resolve, Vec.ofList?, Except.bind, Bounds.settle, Bounds.make, Except.map, Limit.unordered,
      Limit.less, Vec.get_eq_getElem, Kind.ofLimits, List.finRange_succ, unitBox]
  exact .arrays h

noncomputable def boxedOptions : Options ℝ := { Options.standard with bounds := some ⟨1, unitBox⟩ }

theorem boxedOptions_checked : boxedOptions.Checked where
  depth := Options.standard_accepted.depth
  fTolerance := Options.standard_accepted.fTolerance
  gTolerance := Options.standard_accepted.gTolerance
  wolfe := Options.standard_accepted.wolfe
  width := Options.standard_accepted.width
  bounds n b h := by
    cases h
    exact unitBox_built

noncomputable def boxedProblem : Problem ℝ (World ℝ Unit) :=
  { squareProblem with options := boxedOptions, bounds := unitBox, start := unitBox.project (.replicate 1 1) }

theorem unitBox_project : unitBox.project #v[1] = #v[1] := by
  apply Box.project_of_inside
  intro i
  fin_cases i
  simp [unitBox, Limit.Between, Vec.get_eq_getElem]

theorem boxed_norm :
    boxedOptions.gTolerance < unitBox.projectedGradientNorm (unitBox.project #v[1]) (squareAt 1).g := by
  rw [Box.projectedGradientNorm, Box.projectedGradient, unitBox_project]
  refine lt_of_not_ge fun h => ?_
  have h0 := (Vec.maxAbs_le.mp h).2 0
  have hclamp : Limit.clamp (.fin 0) (.fin 1) (-1) = (0 : ℝ) := by
    norm_num [Limit.clamp, Limit.raise_fin, Limit.lower_fin]
  rw [Vec.get_sub, Pi.sub_apply, Box.get_project, Vec.get_sub, Pi.sub_apply] at h0
  norm_num [Vec.get_eq_getElem, unitBox, hclamp, boxedOptions, Options.standard, squareAt] at h0

theorem minimize_inside_boxed : ∃ st it d t,
    prepare (.ok boxedOptions) (.function square) (.array [1] [1]) = .ok boxedProblem ∧
      Run.Reachable (squareSolver.setup boxedProblem) (.empty 1 5) { session := {}, client := () } st ∧
      st.phase = .search it d ∧ Run.Tries (squareSolver.setup boxedProblem) it d st.progress st.world t ∧
      unitBox.Inside (it.point.x + Vec.scale t d) ∧
      Run.trial (squareSolver.setup boxedProblem) it.point.x d t = it.point.x + Vec.scale t d := by
  have hp : prepare (.ok boxedOptions) (.function square) (.array [1] [1]) = .ok boxedProblem := rfl
  have hu : unitBox.unconstrained = false := by simp [unitBox, Bounds.unconstrained]
  have hcall (w : World ℝ Unit) :
      boxedProblem.objective.call (.ofVector boxedProblem.start) w =
        (.answer ((squareAt 1).f, .ofVector (squareAt 1).g), w) := by
    have hstart : boxedProblem.start = (squareAt 1).x := unitBox_project
    rw [hstart]
    exact square_call 1 w
  obtain ⟨-, -, -, hrun⟩ := minimize_inside squareSolver boxedOptions_checked hp
    (rfl : ({ session := {}, client := () } : World ℝ Unit).isRunning squareSolver.id = false)
  obtain ⟨st, it, d, t, hst, hphase, ht⟩ := Run.exists_tries (s := squareSolver.setup boxedProblem)
    (f := (squareAt 1).f) (g := (squareAt 1).g) (prepare_checked _ boxedOptions_checked hp) hu rfl rfl rfl hcall
    boxed_norm (.empty 1 5) { session := {}, client := () }
  exact ⟨st, it, d, t, hp, hst, hphase, ht, (hrun _ _ _ hst).trials it d hphase t ht⟩

end Solver

end BoxBfgs
