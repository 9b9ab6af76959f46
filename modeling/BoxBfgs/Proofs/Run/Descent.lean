import BoxBfgs.Proofs.Memory.Inverse
import BoxBfgs.Proofs.Run.Reachable
import BoxBfgs.Proofs.Search.Line
import BoxBfgs.Proofs.Subspace

namespace BoxBfgs.Run

open Matrix

variable {κ : Type} {n : Nat} {s : Setup ℝ κ n} {it : Iterate ℝ n} {d : Vector ℝ n} {p p' : Progress ℝ n} {w w' : World ℝ κ}

structure Going (s : Setup ℝ κ n) (it : Iterate ℝ n) : Prop where
  memory : it.memory.Sound
  inside : s.bounds.Inside it.point.x
  steep : (s.bounds.projectedGradient it.point.x it.point.g).get ≠ 0

/-- A direction that falls, with room to go along it. -/
structure Falling (s : Setup ℝ κ n) (it : Iterate ℝ n) (d : Vector ℝ n) : Prop where
  slope : Vec.dot it.point.g d < 0
  room : 0 < longestStep s it.point.x d

/-- What holds wherever a run can be. -/
inductive Descends (s : Setup ℝ κ n) : Phase ℝ n → Prop
  | start {m : Memory ℝ n} : Descends s (.start m)
  | evaluating {m : Memory ℝ n} (hm : m.Sound) : Descends s (.evaluating m)
  | check {it : Iterate ℝ n} (hm : it.memory.Sound) (hx : s.bounds.Inside it.point.x)
      (hf : ∀ f, it.previous = some f → it.point.f < f) : Descends s (.check it)
  | cauchy {it : Iterate ℝ n} (h : Going s it) : Descends s (.cauchy it)
  | newton {it : Iterate ℝ n} (h : Going s it) (hu : s.bounds.unconstrained = true) : Descends s (.subspace it none)
  | subspace {it : Iterate ℝ n} {c : CauchyPoint ℝ n it.memory.size} (h : Going s it)
      (hu : s.bounds.unconstrained = false)
      (hc : Cauchy.Lower s.bounds.toBox it.memory it.point.x it.point.g c) : Descends s (.subspace it (some c))
  | search {it : Iterate ℝ n} {d : Vector ℝ n} (h : Going s it) (hd : Falling s it d) : Descends s (.search it d)
  | ended {m : Memory ℝ n} {c : Option (Point ℝ n)} {r : Reason ℝ} (hr : r.code ≠ .approximate) :
      Descends s (.ended m c r)
  | escaped {m : Memory ℝ n} {why : Fault ℝ} : Descends s (.escaped m why)

theorem clear_going (h : Going s it) : Going s { it with memory := it.memory.clear } where
  memory := Memory.fresh_sound _ _
  inside := h.inside
  steep := h.steep

/-- With pairs in the memory a breakdown only costs the memory. -/
theorem breakdown_descends (h : Going s it) (hm : it.memory.isEmpty = false) (why : Obstacle ℝ) :
    Descends s (breakdown s it why p w).phase := by
  rw [breakdown, hm, if_neg Bool.false_ne_true]
  exact .cauchy (clear_going h)

theorem unsolved_descends (h : Going s it) (hm : it.memory.isEmpty = false) (why : Unsolved ℝ) :
    Descends s (unsolved s it why p w).phase := by
  cases why with
  | breakdown b => exact breakdown_descends h hm _
  | nonFinite => exact .escaped

theorem keepFactor_going (h : Going s it) : Going s { it with memory := it.memory.keepFactor } where
  memory := Memory.keepFactor_sound h.memory
  inside := h.inside
  steep := h.steep

theorem cauchy_descends (h : Going s it) : Descends s (cauchy s it p w).phase := by
  have hk := keepFactor_going h
  rw [cauchy]
  split
  · rename_i hu
    exact .newton h hu
  · rename_i hu
    dsimp only
    split
    · rename_i why hc
      refine unsolved_descends hk ?_ why
      by_contra he
      obtain ⟨c, hok⟩ := Cauchy.point_of_isEmpty (b := s.bounds.toBox) (Bool.not_eq_false _ ▸ he) it.point.x it.point.g
      cases hc.symm.trans hok
    · rename_i c hc
      exact .subspace hk (Bool.not_eq_true _ ▸ hu) (Cauchy.point_lower hk.memory h.inside h.steep hc)

theorem newton_falling (h : Going s it) (hu : s.bounds.unconstrained = true) :
    Falling s it (-it.memory.inverseHessianProduct it.point.g) where
  slope := by
    have hpos := h.memory.dot_inverse_pos (Box.gradient_ne_zero h.inside h.steep)
    rw [Vec.dot_real, Vec.get_neg, dotProduct_neg]
    exact neg_neg_of_pos hpos
  room := by
    rw [longestStep, if_pos hu, Box.bigStep]
    norm_num

theorem subspace_falling (h : Going s it) (hu : s.bounds.unconstrained = false)
    {c : CauchyPoint ℝ n it.memory.size} (hc : Cauchy.Lower s.bounds.toBox it.memory it.point.x it.point.g c)
    {step : SubspaceStep ℝ n}
    (hs : Subspace.minimize s.bounds.toBox it.memory it.point.x it.point.g c = .ok step) :
    Falling s it step.direction := by
  obtain ⟨hslope, hroom⟩ := Subspace.minimize_falls h.memory hc hs
  refine ⟨?_, ?_⟩
  · rwa [Vec.dot_real]
  · rw [longestStep, hu, if_neg Bool.false_ne_true]
    exact one_pos.trans_le hroom

theorem subspace_descends {c : Option (CauchyPoint ℝ n it.memory.size)}
    (h : Descends s (.subspace it c)) : Descends s (subspace s it c p w).phase := by
  cases h with
  | newton h hu => exact .search h (newton_falling h hu)
  | subspace h hu hc =>
      rename_i c
      simp only [subspace]
      split
      · rename_i why hstep
        refine unsolved_descends h ?_ why
        by_contra he
        obtain ⟨step, hok⟩ := Subspace.minimize_of_isEmpty (Bool.not_eq_false _ ▸ he) s.bounds.toBox it.point.x
          it.point.g c
        cases hstep.symm.trans hok
      · rename_i step hstep
        exact .search h (subspace_falling h hu hc hstep)

theorem relativeDecrease_pos {previous f : ℝ} (h : f < previous) : 0 < relativeDecrease previous f := by
  rw [relativeDecrease, Scalar.greatest_real, Scalar.greatest_real]
  exact div_pos (sub_pos.mpr h) (one_pos.trans_le (le_max_right _ _))

theorem lt_of_reason_none {norm : ℝ} (h : reason? s it norm p = none) : s.options.gTolerance < norm := by
  by_contra hle
  simp only [reason?, not_lt.mp hle, if_true] at h
  cases h

theorem settled_code {f : ℝ} (hf : it.point.f < f) {o : Options ℝ} {r : Reason ℝ}
    (h : (if o.fTolerance > 0 && relativeDecrease f it.point.f ≤ o.fTolerance * Scalar.epsilon then
        some (Reason.objective (relativeDecrease f it.point.f) (o.fTolerance * Scalar.epsilon))
      else if relativeDecrease f it.point.f ≤ 0 then some .rounding else none) = some r) :
    r.code ≠ .approximate := by
  rw [if_neg (relativeDecrease_pos hf).not_ge] at h
  split at h
  · cases h
    exact Code.noConfusion
  · cases h

theorem reason_code (hf : ∀ f, it.previous = some f → it.point.f < f) {norm : ℝ} {r : Reason ℝ}
    (h : reason? s it norm p = some r) : r.code ≠ .approximate := by
  simp only [reason?] at h
  split at h
  · cases h
    exact Code.noConfusion
  · split at h
    · rename_i r' hr
      cases h
      cases hprev : it.previous with
      | none =>
          rw [hprev] at hr
          cases hr
      | some f =>
          rw [hprev] at hr
          exact settled_code (hf f hprev) hr
    · split at h
      · cases h
        exact Code.noConfusion
      · split at h
        · cases h
          exact Code.noConfusion
        · cases h

theorem checking_descends (hs : s.Checked) (hm : it.memory.Sound) (hx : s.bounds.Inside it.point.x)
    (hf : ∀ f, it.previous = some f → it.point.f < f) : Descends s (checking s it p w).phase := by
  simp only [checking]
  split
  · exact .escaped
  · split
    · rename_i r hr
      exact .ended (reason_code hf hr)
    · rename_i hr
      exact .cauchy ⟨hm, hx, Vec.ne_zero_of_lt_maxAbs hs.options.gTolerance (lt_of_reason_none hr)⟩

theorem evaluating_descends (hs : s.Checked) {m : Memory ℝ n} (hm : m.Sound) :
    Descends s (evaluating s m p w).phase := by
  simp only [evaluating]
  split
  · rename_i point e w' hp
    refine .check hm ?_ fun f hf => by cases hf
    rw [Evaluator.call_x hp]
    exact hs.start
  · exact .ended Code.noConfusion
  · exact .escaped

theorem initialStep_pos {longest : ℝ} (h : 0 < longest) (k : Nat) (g : Vector ℝ n) :
    0 < initialStep s k g longest := by
  simp only [initialStep, Scalar.least_real]
  refine lt_min ?_ h
  split
  · rename_i hc
    simp only [Bool.and_eq_true, decide_eq_true_eq] at hc
    exact lt_min one_pos (one_div_pos.mpr hc.2)
  · exact one_pos

theorem trial_inside (hs : s.Checked) (x : Vector ℝ n) (t : ℝ) : s.bounds.Inside (trial s x d t) := by
  simp only [trial]
  split
  · rename_i hu
    exact hs.bounds.inside_of_unconstrained hu _
  · exact hs.bounds.project_inside _

theorem rejected_descends (h : Going s it) (outcome : Outcome) : Descends s (rejected s it outcome p w).phase := by
  simp only [rejected]
  split
  · exact .ended Code.noConfusion
  · split
    · exact .ended Code.noConfusion
    · exact .cauchy (clear_going h)

theorem accepted_descends (hm : it.memory.Sound) {new : Point ℝ n} (hx : s.bounds.Inside new.x)
    (hf : new.f < it.point.f) (outcome : Outcome) (t : ℝ) : Descends s (accepted s it outcome t new p w).phase := by
  have hprev (f : ℝ) (h : some it.point.f = some f) : new.f < f := by
    cases h
    exact hf
  simp only [accepted]
  split
  · rename_i m hp
    exact .check (Memory.push_sound hm hp) hx hprev
  · exact .check hm hx hprev
  · exact .escaped

/-- A trial of the search along a direction. -/
noncomputable def evaluation (s : Setup ℝ κ n) (it : Iterate ℝ n) (d : Vector ℝ n) (t : ℝ)
    (ew : Evaluator (Vector ℝ n) ℝ n × World ℝ κ) :
    Attempt ℝ (Point ℝ n) × Evaluator (Vector ℝ n) ℝ n × World ℝ κ :=
  ew.1.attempt s.objective Tensor.ofVector d (trial s it.point.x d t) ew.2

noncomputable def searched (s : Setup ℝ κ n) (it : Iterate ℝ n) (d : Vector ℝ n) (p : Progress ℝ n) (w : World ℝ κ) :
    Except (Fault ℝ) (Found ℝ (Point ℝ n)) × Evaluator (Vector ℝ n) ℝ n × World ℝ κ :=
  Line.search (evaluation s it d) s.options.line it.point.f (Vec.dot it.point.g d)
    (initialStep s p.iterations it.point.g (longestStep s it.point.x d)) (longestStep s it.point.x d) (p.evaluator, w)

/-- Where a search along a falling direction leads to. -/
inductive Searched (s : Setup ℝ κ n) (it : Iterate ℝ n) (d : Vector ℝ n) (p : Progress ℝ n) (w : World ℝ κ) :
    State ℝ κ n → Prop
  | escaped {why : Fault ℝ} {e : Evaluator (Vector ℝ n) ℝ n} {w' : World ℝ κ}
      (h : searched s it d p w = (.error why, e, w')) :
      Searched s it d p w ⟨.escaped it.memory why, { p with evaluator := e }, w'⟩
  | failed {why : Failure} {o : Outcome} {e : Evaluator (Vector ℝ n) ℝ n} {r : Except (Fault ℝ) (Found ℝ (Point ℝ n))}
      {w' w'' : World ℝ κ} (h : searched s it d p w = (r, e, w')) :
      Searched s it d p w
        ⟨.ended it.memory (some it.point) (.failure why), { p with evaluator := e, outcome := some o }, w''⟩
  | rejected {o : Outcome} {e : Evaluator (Vector ℝ n) ℝ n} {r : Except (Fault ℝ) (Found ℝ (Point ℝ n))}
      {w' w'' : World ℝ κ} (h : searched s it d p w = (r, e, w')) :
      Searched s it d p w (rejected s it o { p with evaluator := e, outcome := some o } w'')
  | accepted {found : Found ℝ (Point ℝ n)} {new : Point ℝ n} {e : Evaluator (Vector ℝ n) ℝ n} {w' w'' : World ℝ κ}
      (h : searched s it d p w = (.ok found, e, w')) (hnew : found.point = some new) :
      Searched s it d p w
        (accepted s it found.outcome found.step new { p with evaluator := e, outcome := some found.outcome } w'')

theorem searching_searched (hd : Falling s it d) : Searched s it d p w (searching s it d p w) := by
  have hslope := hd.slope
  simp only [searching]
  rw [if_neg (by simpa using hslope), if_neg hd.room.not_ge]
  split
  · rename_i hfound
    exact .escaped hfound
  · rename_i found e w' hfound
    split
    · exact .failed hfound
    · exact .rejected hfound
    · rename_i new hnew _
      exact .accepted hfound hnew

/-- The new point of a search is one of its trials, and lies below the start. -/
theorem searched_new (hs : s.Checked) (hd : Falling s it d) {found : Found ℝ (Point ℝ n)} {new : Point ℝ n}
    {ew : Evaluator (Vector ℝ n) ℝ n × World ℝ κ} (h : searched s it d p w = (.ok found, ew))
    (hnew : found.point = some new) :
    new.x = trial s it.point.x d found.step ∧ 0 < found.step ∧ found.step ≤ longestStep s it.point.x d ∧
      new.f < it.point.f := by
  obtain ⟨hc1, hc, hc2⟩ := hs.options.wolfe
  obtain ⟨v, ⟨hx, rfl⟩, hpos, hle, hlt⟩ := Line.search_descends
    (R := fun t (q : Point ℝ n) v => q.x = trial s it.point.x d t ∧ q.f = v) hc1 hc hc2 hs.options.width.2 hd.slope
    (initialStep_pos hd.room _ _) hd.room (fun t w q v g w' hq => Evaluator.attempt_answered hq) h hnew
  exact ⟨hx, hpos, hle, hlt⟩

theorem searching_descends (hs : s.Checked) (h : Going s it) (hd : Falling s it d) :
    Descends s (searching s it d p w).phase := by
  have hcases : Searched s it d p w (searching s it d p w) := searching_searched hd
  generalize searching s it d p w = st at hcases
  cases hcases with
  | escaped => exact .escaped
  | failed => exact .ended Code.noConfusion
  | rejected => exact rejected_descends h _
  | accepted hfound hnew =>
      obtain ⟨hx, -, -, hlt⟩ := searched_new hs hd hfound hnew
      refine accepted_descends h.memory ?_ hlt _ _
      rw [hx]
      exact trial_inside hs _ _

theorem step_descends (hs : s.Checked) {st : State ℝ κ n} (h : Descends s st.phase) : Descends s (step s st).phase := by
  obtain ⟨phase, p, w⟩ := st
  cases h with
  | start => exact .evaluating (Memory.fresh_sound _ _)
  | evaluating hm => exact evaluating_descends hs hm
  | check hm hx hf => exact checking_descends hs hm hx hf
  | cauchy h => exact cauchy_descends h
  | newton h hu => exact subspace_descends (.newton h hu)
  | subspace h hu hc => exact subspace_descends (.subspace h hu hc)
  | search h hd => exact searching_descends hs h hd
  | ended hr => exact .ended hr
  | escaped => exact .escaped

theorem Reachable.descends (hs : s.Checked) {m : Memory ℝ n} {st : State ℝ κ n} (h : Reachable s m w st) :
    Descends s st.phase := by
  induction h with
  | initial => exact .start
  | step h ih => exact step_descends hs ih

end BoxBfgs.Run
