import BoxBfgs.Proofs.Run.Chain
import BoxBfgs.Proofs.Run.Feasible

namespace BoxBfgs

namespace Evaluator

variable {n : Nat} {points : List (Point ℝ n)} {p q b : Point ℝ n}

/-- The earliest of the lowest points. -/
def Earliest (points : List (Point ℝ n)) (q : Point ℝ n) : Prop :=
  ∃ before after, points = before ++ q :: after ∧ (∀ p ∈ before, q.f < p.f) ∧ ∀ p ∈ after, q.f ≤ p.f

namespace Earliest

theorem mem (h : Earliest points q) : q ∈ points := by
  obtain ⟨before, after, rfl, -, -⟩ := h
  exact List.mem_append_right _ List.mem_cons_self

theorem le (h : Earliest points q) (hp : p ∈ points) : q.f ≤ p.f := by
  obtain ⟨before, after, rfl, hbefore, hafter⟩ := h
  rcases List.mem_append.mp hp with hp | hp
  · exact (hbefore p hp).le
  · rcases List.mem_cons.mp hp with rfl | hp
    · exact le_rfl
    · exact hafter p hp

theorem append_lower (h : Earliest points b) (hp : p.f < b.f) : Earliest (points ++ [p]) p :=
  ⟨points, [], rfl, fun _ hq => hp.trans_le (h.le hq), nofun⟩

theorem append_higher (h : Earliest points b) (hp : b.f ≤ p.f) : Earliest (points ++ [p]) b := by
  obtain ⟨before, after, rfl, hbefore, hafter⟩ := h
  refine ⟨before, after ++ [p], by simp, hbefore, fun q hq => ?_⟩
  rcases List.mem_append.mp hq with hq | hq
  · exact hafter q hq
  · rwa [List.mem_singleton.mp hq]

end Earliest

/-- What is kept as the best is the earliest of the lowest points, as soon as there are any. -/
theorem foldl_better (points : List (Point ℝ n)) (hne : points ≠ []) :
    ∃ q, points.foldl better none = some q ∧ Earliest points q := by
  induction points using List.reverseRecOn with
  | nil => exact absurd rfl hne
  | append_singleton points p ih =>
      rw [List.foldl_concat]
      by_cases hempty : points = []
      · subst hempty
        exact ⟨p, rfl, [], [], rfl, nofun, nofun⟩
      · obtain ⟨b, hb, hlow⟩ := ih hempty
        rw [hb, better]
        split_ifs with hp
        · exact ⟨p, rfl, hlow.append_lower hp⟩
        · exact ⟨b, rfl, hlow.append_higher (not_lt.mp hp)⟩

end Evaluator

namespace Run

variable {κ : Type} {n : Nat} {s : Setup ℝ κ n} {m : Memory ℝ n} {w : World ℝ κ}

theorem mem_iterates {it : Iterate ℝ n} {k : Nat} (h : it ∈ iterates s m w k) :
    ∃ i, (after s m w i).phase = .check it := by
  obtain ⟨i, -, hi⟩ := List.mem_filterMap.mp h
  exact ⟨i, Phase.iterate?_eq_some.mp hi⟩

theorem Linked.pairwise {its : List (Iterate ℝ n)} (h : Linked its)
    (hlower : ∀ it ∈ its, ∀ f, it.previous = some f → it.point.f < f) :
    its.Pairwise fun a b => b.point.f < a.point.f := by
  induction h with
  | nil => exact .nil
  | first => exact List.pairwise_singleton _ _
  | @next front a b ha hb ih =>
      have hpair := ih fun it hit => hlower it (List.mem_append_left _ hit)
      have hlt : b.point.f < a.point.f := hlower b (List.mem_append_right _ (List.mem_singleton_self b)) _ hb
      refine List.pairwise_append.mpr ⟨hpair, List.pairwise_singleton _ _, fun c hc b' hb' => ?_⟩
      rw [List.mem_singleton.mp hb']
      rcases List.mem_append.mp hc with hc | hc
      · exact hlt.trans ((List.pairwise_append.mp hpair).2.2 c hc a (List.mem_singleton_self a))
      · rwa [List.mem_singleton.mp hc]

/-- From iterate to iterate the value falls. -/
theorem iterates_pairwise (hs : s.Checked) (m : Memory ℝ n) (w : World ℝ κ) (k : Nat) :
    (iterates s m w k).Pairwise fun a b => b.point.f < a.point.f := by
  refine (after_trailed m w k).linked.pairwise fun it hit f hf => ?_
  obtain ⟨i, hi⟩ := mem_iterates hit
  have hdescends := (after_reachable s m w i).descends hs
  rw [hi] at hdescends
  cases hdescends with
  | check _ _ hlower => exact hlower f hf

theorem point?_of_current {ph : Phase ℝ n} {it : Iterate ℝ n} (h : ph.current? = some it) : ph.point? = some it.point := by
  cases ph <;> cases h <;> rfl

/-- What the calls so far say of where a run is: the first one was made at the start, and the point that the run has come
to was led to by one of them and does not lie above that of the first one. -/
structure Held (x : Vector ℝ n) (st : State ℝ (Watched ℝ κ) n) : Prop where
  before : st.phase.begun = false → st.world.calls = []
  first : ∀ c, st.world.calls.head? = some c → c.x = .ofVector x
  standing : ∀ q, st.phase.point? = some q → q ∈ Call.points n st.world.calls ∧
    ∃ c q0, st.world.calls.head? = some c ∧ c.point? n = some q0 ∧ q.f ≤ q0.f

namespace Held

variable {x : Vector ℝ n} {ph ph' : Phase ℝ n} {it : Iterate ℝ n} {p p' : Progress ℝ n} {w w' : World ℝ (Watched ℝ κ)}

/-- Once the first call was made, the point of a run is replaced by lower ones only. -/
theorem move (h : Held x ⟨ph, p, w⟩) (hph : ph.current? = some it) (hcalls : w.calls <+: w'.calls)
    (hbegun : ph'.begun = true)
    (hq : ∀ q, ph'.point? = some q → q = it.point ∨ q ∈ Call.points n w'.calls ∧ q.f ≤ it.point.f) :
    Held x ⟨ph', p', w'⟩ := by
  obtain ⟨hmem, c, q0, hc, hq0, hle⟩ := h.standing it.point (point?_of_current hph)
  have hc' : w'.calls.head? = some c := by
    obtain ⟨rest, hrest⟩ := hcalls
    rw [← hrest, List.head?_append_of_ne_nil]
    · exact hc
    · intro hnil
      rw [hnil] at hc
      cases hc
  refine ⟨fun hb => ?_, fun c' hhead => ?_, fun q hpoint => ?_⟩
  · cases hb.symm.trans hbegun
  · cases hhead.symm.trans hc'
    exact h.first c hc
  · rcases hq q hpoint with rfl | ⟨hseen, hlower⟩
    · exact ⟨(hcalls.filterMap _).subset hmem, c, q0, hc', hq0, hle⟩
    · exact ⟨hseen, c, q0, hc', hq0, hlower.trans hle⟩

/-- The first call is the first one that is written down. -/
theorem begin (h : Held x ⟨ph, p, w⟩) (hph : ph.begun = false) (he : p.evaluator.expected = .whole n)
    {o : Objective ℝ (World ℝ κ)} {r : Except (Fault ℝ) (Point ℝ n)} {e : Evaluator (Vector ℝ n) ℝ n}
    (hcall : p.evaluator.call o.watched Tensor.ofVector x w = (r, e, w')) (hbegun : ph'.begun = true)
    (hq : ∀ q, ph'.point? = some q → r = .ok q) : Held x ⟨ph', p', w'⟩ := by
  have hnil : w.calls = [] := h.before hph
  have hnoted : Evaluator.Noted p.evaluator o x w (r, e, w') := hcall ▸ Evaluator.call_noted he
  cases hnoted with
  | refused =>
      refine ⟨fun hb => ?_, h.first, fun q hpoint => ?_⟩
      · cases hb.symm.trans hbegun
      · cases hq q hpoint
  | made _ hx _ hw hr =>
      rw [hnil, List.nil_append] at hw
      refine ⟨fun hb => ?_, fun c hc => ?_, fun q hpoint => ?_⟩
      · cases hb.symm.trans hbegun
      · dsimp only at hc
        rw [hw] at hc
        cases hc
        exact hx
      · cases hq q hpoint
        have hsome : _ = some q := hr.symm
        dsimp only
        rw [hw]
        refine ⟨?_, _, q, rfl, hsome, le_rfl⟩
        simp [Call.points, hsome]

end Held

theorem Turn.held {st st' : State ℝ (Watched ℝ κ) n} (h : Turn s.watched st st') (hd : Descends s.watched st'.phase)
    (he : st.progress.evaluator.expected = .whole n) (hh : Held s.start st) : Held s.start st' := by
  have hcalls := h.calls_prefix
  have hsame {it : Iterate ℝ n} (q : Point ℝ n) (hq : some it.point = some q) : q = it.point := by
    cases hq
    rfl
  cases h with
  | start hw =>
      have hnil := (World.calls_of_client hw).trans (hh.before rfl)
      refine ⟨fun _ => hnil, fun c hc => ?_, nofun⟩
      dsimp only at hc
      rw [hnil] at hc
      cases hc
  | first hcall =>
      refine hh.begin rfl he hcall rfl fun q hq => ?_
      cases hq
      rfl
  | firstFailed hcall | firstEscaped hcall => exact hh.begin rfl he hcall rfl nofun
  | decided | failed | spent | lost | undecided | toward =>
      exact hh.move rfl hcalls rfl fun q hq => .inl (hsame q hq)
  | unshown | thrown | overfull => exact hh.move rfl hcalls rfl nofun
  | along _ hit =>
      refine hh.move rfl hcalls rfl fun q hq => .inl ?_
      rw [← hit.point]
      exact hsame q hq
  | reset hturning _ _ hit =>
      refine hh.move hturning.current hcalls rfl fun q hq => .inl ?_
      rw [← hit.point]
      exact hsame q hq
  | stuck hturning => exact hh.move hturning.current hcalls rfl fun q hq => .inl (hsame q hq)
  | misfit hturning => exact hh.move hturning.current hcalls rfl nofun
  | again _ _ _ _ _ _ hit =>
      refine hh.move rfl hcalls rfl fun q hq => .inl ?_
      rw [← hit.point]
      exact hsame q hq
  | accepted _ hsought hnew _ hw =>
      refine hh.move rfl hcalls rfl fun q hq => .inr ?_
      cases hq
      cases hd with
      | check _ _ hlower =>
          refine ⟨?_, (hlower _ rfl).le⟩
          rw [World.calls_of_client hw]
          exact sought_seen hsought hnew

theorem after_held (hs : s.Checked) (m : Memory ℝ n) {w : World ℝ (Watched ℝ κ)} (hw : w.calls = []) (k : Nat) :
    Held s.start (after s.watched m w k) := by
  have hs' : s.watched.Checked := ⟨hs.options, hs.bounds, hs.start⟩
  refine after_induction (P := Held s.start) ⟨fun _ => hw, fun c hc => ?_, fun q hq => by cases hq⟩
    (fun j hturn ih => ?_) k
  · have hnil : (first s.watched m w).world.calls = [] := hw
    rw [hnil] at hc
    cases hc
  · exact hturn.held ((after_reachable _ m w (j + 1)).descends hs') (after_tallied m hw j).expected ih

theorem Ending.converged {st st' : State ℝ κ n} {c : Option (Point ℝ n)} {r : Reason ℝ} (h : Ending s st st' c r)
    (hr : r.code.converged = true) : ∃ q, c = some q := by
  cases h with
  | unevaluated => cases hr
  | judged | stuck | failed | spent | lost => exact ⟨_, rfl⟩

end Run

theorem Call.point?_x {n : Nat} {c : Call ℝ} {x : Vector ℝ n} {q : Point ℝ n} (hx : c.x = .ofVector x)
    (h : c.point? n = some q) : q.x = x := by
  obtain ⟨y, reply⟩ := c
  obtain rfl : y = .ofVector x := hx
  cases reply with
  | answer a =>
      obtain ⟨f, g⟩ := a
      rw [point?, Tensor.vector?_ofVector] at h
      cases hg : g.vector? n with
      | none => simp [hg] at h
      | some g' =>
          simp only [hg] at h
          split_ifs at h
          cases h
          rfl
  | abort | arithmetic | fault => cases h

/-- An answer tells of no more than one point. -/
theorem Answer.point_eq {n : Nat} {p q : Point ℝ n} {s t : Status ℝ}
    (h : Answer.evaluated p.x.toList p.f p.g.toList s = .evaluated q.x.toList q.f q.g.toList t) : p = q := by
  obtain ⟨x, f, g⟩ := p
  obtain ⟨x', f', g'⟩ := q
  obtain ⟨hx, hf, hg, -⟩ := Answer.evaluated.inj h
  rw [Evaluated.mk.injEq]
  exact ⟨Vector.toList_inj.mp hx, hf, Vector.toList_inj.mp hg⟩

namespace Solver

variable {κ : Type}

theorem trace_held (v : Solver ℝ κ) {p : Problem ℝ (World ℝ κ)} (hs : (v.setup p).Checked) (w : World ℝ κ) (k : Nat) :
    Run.Held p.start (v.watched.trace p.watched (w.watched []) k) := by
  have hcalls : ((w.watched []).enter v.id p.options.verbosity).1.calls = [] := calls_enter _ _ _
  exact Run.after_held hs (.renew v.memory p.n p.options.depth) hcalls k

/-- From iterate to iterate the value falls. What is returned once the first evaluation succeeded is one of the points
that the objective gave, not above the first one, and unless the run converged it is the earliest of the lowest. -/
theorem minimize_lowest (v : Solver ℝ κ) {offer : Offer ℝ (World ℝ κ)} {start : Start ℝ} {o : Options ℝ} (ho : o.Checked)
    {p : Problem ℝ (World ℝ κ)} (hp : prepare (.ok o) offer start = .ok p) (w : World ℝ κ) :
    (∀ k, (v.iterates p w k).Pairwise fun a b => b.point.f < a.point.f) ∧
      ∀ a, (v.minimize offer start (.ok o) w).1 = .ok a →
        ∀ c rest q0, v.calls offer start (.ok o) w = c :: rest → c.point? p.n = some q0 →
          q0.x = p.start ∧ ∃ q : Point ℝ p.n, a = .evaluated q.x.toList q.f q.g.toList a.status ∧
            q ∈ Call.points p.n (v.calls offer start (.ok o) w) ∧ q.f ≤ q0.f ∧
            (a.status.reason.code.converged = false →
              Evaluator.Earliest (Call.points p.n (v.calls offer start (.ok o) w)) q) := by
  have hs := prepare_checked v ho hp
  refine ⟨fun k => Run.iterates_pairwise hs _ _ k, fun a ha c rest q0 hcalls hq0 => ?_⟩
  obtain ⟨k, m, current, r, hend, rfl, -, hlog⟩ := minimize_answer hp ha
  have hheld := trace_held v hs w k
  have htallied := trace_tallied v p w k
  have hphase : (v.watched.trace p.watched (w.watched []) k).phase = .ended m current r :=
    (v.phase_watched p w k).trans hend
  have hhead : (v.watched.trace p.watched (w.watched []) k).world.calls.head? = some c := by
    rw [← hlog, hcalls]
    rfl
  have hmem : q0 ∈ Call.points p.n (v.calls offer start (.ok o) w) := by
    rw [hcalls]
    exact List.mem_filterMap.mpr ⟨c, List.mem_cons_self, hq0⟩
  refine ⟨Call.point?_x (hheld.first c hhead) hq0, ?_⟩
  rw [answer_status, chosen]
  cases hconverged : r.code.converged with
  | true =>
      have hfinal : (v.trace p w k).phase.final = true := by
        rw [hend]
        rfl
      obtain ⟨j, hturn, -⟩ := Run.last_turn (s := v.toSetup p) hfinal
      obtain ⟨q, rfl⟩ := (hturn.ending hend).converged hconverged
      have hpoint : (v.watched.trace p.watched (w.watched []) k).phase.point? = some q := by
        rw [hphase]
        rfl
      obtain ⟨hseen, c', q1, hc', hq1, hle⟩ := hheld.standing q hpoint
      cases hhead.symm.trans hc'
      cases hq0.symm.trans hq1
      rw [← hlog] at hseen
      exact ⟨q, rfl, hseen, hle, fun h => by cases h⟩
  | false =>
      obtain ⟨q, hq, hlow⟩ := Evaluator.foldl_better (Call.points p.n (v.calls offer start (.ok o) w))
        (List.ne_nil_of_mem hmem)
      have hbest : (v.trace p w k).progress.evaluator.best = some q := by
        rw [htallied.best, ← hlog, hq]
      rw [hbest]
      exact ⟨q, rfl, hlow.mem, hlow.le hmem, fun _ => hlow⟩

theorem minimize_lowest_once : onceOptions.Checked ∧
    prepare (.ok onceOptions) (.function square) (.array [1] [1 + 1]) = .ok onceProblem ∧
    ((squareSolver.iterates onceProblem { session := {}, client := () } 7).Pairwise
      fun a b => b.point.f < a.point.f) ∧
    ∃ c rest q0, squareSolver.calls (.function square) (.array [1] [1 + 1]) (.ok onceOptions)
        { session := {}, client := () } = c :: rest ∧ c.point? 1 = some q0 ∧ q0.x = onceProblem.start ∧
      (squareSolver.minimize (.function square) (.array [1] [1 + 1]) (.ok onceOptions)
        { session := {}, client := () }).1 =
          .ok (.evaluated (squareAt 1).x.toList (squareAt 1).f (squareAt 1).g.toList
            { reason := .iterations (.whole 1), iterations := 1, evaluations := 2 }) ∧
      (squareAt 1).f ≤ q0.f ∧ Evaluator.Earliest (Call.points 1 (c :: rest)) (squareAt 1) := by
  obtain ⟨hfall, hanswer⟩ := minimize_lowest squareSolver onceOptions_checked prepare_once
    { session := {}, client := () }
  obtain ⟨m, p, w', hend, -, -⟩ := trace_once
  have hfinal : (squareSolver.trace onceProblem { session := {}, client := () } 7).phase.final = true := by
    rw [hend]
    rfl
  have hlast : squareSolver.trace onceProblem { session := {}, client := () }
      (Run.fuel onceProblem.options.iterations.rounds) = _ := (Run.after_of_final hfinal (by decide)).trans hend
  have hphase := (squareSolver.phase_watched onceProblem { session := {}, client := () }
    (Run.fuel onceProblem.options.iterations.rounds)).trans (congrArg State.phase hlast)
  -- The run has come to a point, which means that the first call gave one.
  obtain ⟨-, c, q0, hc, hq0, -⟩ := (trace_held squareSolver
    (prepare_checked squareSolver onceOptions_checked prepare_once) { session := {}, client := () }
    (Run.fuel onceProblem.options.iterations.rounds)).standing _ (congrArg Phase.point? hphase)
  rw [← calls_of_prepare rfl prepare_once] at hc
  obtain ⟨rest, hcalls⟩ := List.head?_eq_some_iff.mp hc
  obtain ⟨hx, q, hq, -, hle, hlow⟩ := hanswer _ minimize_once c rest q0 hcalls hq0
  have hsame : squareAt 1 = q := Answer.point_eq hq
  rw [hcalls] at hlow
  rw [hsame]
  exact ⟨onceOptions_checked, prepare_once, hfall 7, c, rest, q0, hcalls, hq0, hx, hsame ▸ minimize_once, hle, hlow rfl⟩

end Solver

end BoxBfgs
