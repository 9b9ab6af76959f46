import BoxBfgs.Proofs.Run.Heard
import BoxBfgs.Proofs.Run.Tally

namespace BoxBfgs

variable {α κ : Type} [Scalar α]

theorem Evaluator.call_records {n : Nat} (e : Evaluator (Vector α n) α n) (g : Objective α κ) (x : Vector α n)
    (w : World α (Heard α κ)) : (e.call g.heard Tensor.ofVector x w).2.2.records = w.records := by
  rw [call, Objective.call_heard]
  split
  · rfl
  · rcases g.call (.ofVector x) w.client.1 with ⟨_ | _ | _ | _, c⟩
    · dsimp only
      split <;> rfl
    · rfl
    · rfl
    · rfl

namespace Run

variable {n : Nat} {s s' : Setup α (Heard α κ) n} {g : Objective α κ} {f : Option (Listener α κ)}

/-- What was shown to a client stays written down. -/
theorem Turn.records_kept (hg : s.objective = g.heard) (hf : s.callback = f.map Listener.heard)
    {st st' : State α (Heard α κ) n} (h : Turn s st st') : st.world.records <+: st'.world.records := by
  refine h.keeps (J := fun _ w => st.world.records <+: w.records) (fun {e x w} _ hw => ?_) (fun hclient hw => ?_)
    (fun {f e r w} hcallback hw => ?_) List.prefix_rfl
  · rwa [hg, Evaluator.call_records]
  · rwa [World.records_of_client hclient]
  · rw [hf] at hcallback
    obtain ⟨f, -, rfl⟩ := Option.map_eq_some_iff.mp hcallback
    exact hw.trans (List.prefix_append _ _)

theorem after_records_kept (hg : s.objective = g.heard) (hf : s.callback = f.map Listener.heard) {m : Memory α n}
    {w : World α (Heard α κ)} {j k : Nat} (hjk : j ≤ k) :
    (after s m w j).world.records <+: (after s m w k).world.records := by
  induction k, hjk using Nat.le_induction with
  | base => exact List.prefix_rfl
  | succ k _ ih =>
      rw [after_succ]
      cases hfinal : (after s m w k).phase.final with
      | true => rwa [step_of_final hfinal]
      | false => exact ih.trans ((step_turn _ hfinal).records_kept hg hf)

/-- Two runs of which one may have stopped before the other. -/
inductive Apart (d : Bool) (s s' : Setup α (Heard α κ) n) (st st' : State α (Heard α κ) n) : Prop
  | level (h : Level (.still α n) Eq d d (alikeKept s s') st st')
  | first (hfinal : st.phase.final = true) (h : st.world.records <+: st'.world.records)
  | second (hfinal : st'.phase.final = true) (h : st'.world.records <+: st.world.records)

theorem checking_apart {d : Bool} (h : Moves (.still α n) Eq d d s s') (hbounds : s'.bounds = s.bounds)
    {it : Iterate α n} {p p' : Progress α n} {w w' : World α (Heard α κ)} (hp : Even (.still α n) (alikeKept s s') p p')
    (hw : Beside Eq d d w w') : Apart d s s' (checking s it p w) (checking s' it p' w') := by
  have hinspect : inspect s' it = inspect s it := by
    rw [inspect, inspect, hbounds]
  have hreported := reported_level it h hp hw (by rw [Motion.iterate_still, hinspect])
  rw [Motion.iterate_still] at hreported
  obtain ⟨hresult, hprogress, hworld⟩ := hreported
  rw [checking_eq, checking_eq]
  generalize reported s it p w = r at *
  generalize reported s' it p' w' = r' at *
  obtain ⟨r, q, v⟩ := r
  obtain ⟨r', q', v'⟩ := r'
  dsimp only at hresult hprogress hworld
  subst hresult
  have hrecords : v'.records = v.records := World.records_of_client hworld.client.symm
  have hphase (ph : Phase α n) : ph = (Motion.still α n).phase ph := (Motion.phase_still ph).symm
  cases r' with
  | error why => exact .level ⟨rfl, hprogress, hworld⟩
  | ok _ =>
      simp only [judged]
      split
      · refine .first rfl ?_
        split <;> exact hrecords ▸ List.prefix_rfl
      · split
        · exact .second rfl (hrecords ▸ List.prefix_rfl)
        · exact .level ⟨hphase _, hprogress, hworld⟩

theorem after_apart {d : Bool} {o : Options α} (hg : s.objective = g.heard) (hf : s.callback = f.map Listener.heard)
    (hline : o.line = s.options.line) (hevaluations : o.evaluations = s.options.evaluations) {m : Memory α n}
    {w w' : World α (Heard α κ)} (hw : Beside Eq d d w w') (k : Nat) :
    Apart d s { s with options := o } (after s m w k) (after { s with options := o } m w' k) := by
  have hmoves := moves_still hg hf hline hevaluations d d
  induction k with
  | zero => exact .level (first_level hmoves hw)
  | succ k ih =>
      cases ih with
      | level h =>
          cases hit : (after s m w k).phase.iterate? with
          | none =>
              rw [after_succ, after_succ]
              exact .level (step_level hmoves h hit)
          | some it =>
              have hphase := Phase.iterate?_eq_some.mp hit
              obtain ⟨hphase', hp, hworld⟩ := h
              rw [hphase, Motion.phase_still] at hphase'
              rw [after_succ, after_succ, step, step, hphase, hphase']
              exact checking_apart hmoves rfl hp hworld
      | first hfinal h =>
          rw [after_of_final hfinal k.le_succ]
          exact .first hfinal (h.trans (after_records_kept (s := { s with options := o }) hg hf k.le_succ))
      | second hfinal h =>
          rw [after_of_final hfinal k.le_succ]
          exact .second hfinal (h.trans (after_records_kept hg hf k.le_succ))

/-- However far the two have come, what the one has shown begins with what the other has shown. -/
theorem after_records {d : Bool} {o : Options α} (hg : s.objective = g.heard) (hf : s.callback = f.map Listener.heard)
    (hline : o.line = s.options.line) (hevaluations : o.evaluations = s.options.evaluations) {m : Memory α n}
    {w w' : World α (Heard α κ)} (hw : Beside Eq d d w w') (j k : Nat) :
    (after s m w j).world.records <+: (after { s with options := o } m w' k).world.records ∨
      (after { s with options := o } m w' k).world.records <+: (after s m w j).world.records := by
  rcases le_total j k with hjk | hkj
  · have hlonger : (after { s with options := o } m w' j).world.records <+:
        (after { s with options := o } m w' k).world.records :=
      after_records_kept (s := { s with options := o }) hg hf hjk
    cases after_apart hg hf hline hevaluations hw j with
    | level h => exact .inl ((World.records_of_client h.world.client) ▸ hlonger)
    | first _ h => exact .inl (h.trans hlonger)
    | second hfinal h => exact .inr (after_of_final hfinal hjk ▸ h)
  · have hlonger : (after s m w k).world.records <+: (after s m w j).world.records := after_records_kept hg hf hkj
    cases after_apart hg hf hline hevaluations hw k with
    | level h => exact .inr ((World.records_of_client h.world.client) ▸ hlonger)
    | first hfinal h => exact .inl (after_of_final hfinal hkj ▸ h)
    | second _ h => exact .inr (h.trans hlonger)

end Run

namespace Solver

theorem prepare_with_options {o o' : Options α} (hbounds : o'.bounds = o.bounds) (offer : Offer α (World α κ))
    (start : Start α) :
    prepare (.ok o') offer start = (prepare (.ok o) offer start).map fun p => { p with options := o' } := by
  have hplace (f : Objective α (World α κ)) :
      place f o' start = (place f o start).map fun p => { p with options := o' } := by
    simp only [place, refuse, hbounds]
    split
    · rfl
    · rfl
    · split
      · rfl
      · split
        · rfl
        · split
          · rfl
          · split <;> rfl
  cases h : offer.adapt with
  | error why => simp [prepare, Except.bind, Except.map, h]
  | ok f => simp [prepare, Except.bind, h, hplace]

/-- Where a run stops is all that the options for stopping decide: of what two minimisations show that differ in these
options, in the history and in the verbosity, one begins with the other. -/
theorem minimize_records (v : Solver α κ) (f : Option (Listener α κ)) (offer : Offer α κ) (start : Start α)
    (o : Options α) (iterations : Cap) (gTolerance gTold fTolerance : α) (keepHistory : Value) (verbosity : Verbosity)
    (w : World α κ) :
    let shown (o : Options α) := ((v.heard f).minimize offer.heard start (.ok o) w.heard).2.2.records
    let o' := { o with iterations, gTolerance, gTold, fTolerance, keepHistory, verbosity }
    shown o <+: shown o' ∨ shown o' <+: shown o := by
  intro shown o'
  have hbounds : o'.bounds = o.bounds := rfl
  have hplace := prepare_with_options hbounds offer.heard start
  cases hp : prepare (.ok o) offer.heard start with
  | error why =>
      rw [hp] at hplace
      have hshown : shown o = w.heard.records := World.records_of_client (client_of_error why hp)
      have hshown' : shown o' = w.heard.records := World.records_of_client (client_of_error why hplace)
      rw [hshown, hshown']
      exact .inl List.prefix_rfl
  | ok p =>
      rw [hp] at hplace
      cases hrun : w.heard.isRunning (v.heard f).id with
      | true =>
          have hshown (o : Options α) : shown o = w.heard.records := by
            dsimp only [shown]
            rw [minimize, hrun, if_pos rfl]
          rw [hshown, hshown]
          exact .inl List.prefix_rfl
      | false =>
          obtain ⟨g, hg⟩ := prepare_heard hp
          have hshown {o : Options α} {p : Problem α (World α (Heard α κ))}
              (hp : prepare (.ok o) offer.heard start = .ok p) :
              shown o = ((v.heard f).trace p w.heard (Run.fuel p.options.iterations.rounds)).world.records := by
            dsimp only [shown]
            rw [minimize_of_prepare hrun hp, solve_eq, final_eq_trace]
            exact World.records_of_client (closed_client _ _ _ _)
          rw [hshown hp, hshown hplace]
          obtain ⟨rfl, -⟩ := prepare_options hp
          have hbeside : Beside Eq w.session.debug w.session.debug w.heard w.heard := ⟨rfl, rfl, rfl⟩
          exact Run.after_records (s := (v.heard f).toSetup p) (o := o') hg rfl rfl rfl hbeside.enter _ _

end Solver

end BoxBfgs
