import BoxBfgs.Proofs.Run.Heard
import BoxBfgs.Proofs.Run.Records

namespace BoxBfgs

section

variable {α κ β : Type}

namespace World

/-- The world without what is written down beside its client. -/
def unheard (w : World α (Heard α κ)) : World α κ := { session := w.session, client := w.client.1 }

def hearing (w : World α κ) (rs : List (Record α)) : World α (Heard α κ) :=
  { session := w.session, client := (w.client, rs) }

theorem unheard_emit (w : World α (Heard α κ)) (id : Nat) (needed : Verbosity) (level : Level) (e : Event α) :
    (w.emit id needed level e).unheard = w.unheard.emit id needed level e := by
  rw [emit, emit, apply_ite unheard]
  rfl

/-- A solver cannot tell whether somebody listens. -/
theorem unheard_bond : Bond fun (w : World α κ) (w' : World α (Heard α κ)) => w'.unheard = w where
  debug := by
    rintro _ w rfl
    rfl
  running := by
    rintro _ w rfl
    rfl
  emit := by
    rintro id needed level e _ w rfl
    exact w.unheard_emit id needed level e
  rejected := by
    rintro why _ w rfl
    rfl
  enter := by
    rintro id verbosity _ w rfl
    simp only [enter]
    split <;> exact ⟨rfl, rfl⟩
  leave := by
    rintro id saved _ w rfl
    cases saved <;> rfl

end World

/-- A client's function, which does not see what is written down. -/
def Callable.overheard (f : Callable α (World α κ) β) : Callable α (World α (Heard α κ)) β := fun x w =>
  let (r, v) := f x w.unheard
  (r, v.hearing w.records)

def Objective.overheard : Objective α (World α κ) → Objective α (World α (Heard α κ))
  | .combined f => .combined f.overheard
  | .split v g => .split v.overheard g.overheard
  | .custom name f => .custom name f.overheard

def Offer.overheard : Offer α (World α κ) → Offer α (World α (Heard α κ))
  | .objective name f => .objective name f.overheard
  | .object sort v g => .object sort (v.map Callable.overheard) (g.map Callable.overheard)
  | .pair v g => .pair (v.map Callable.overheard) (g.map Callable.overheard)
  | .function f => .function f.overheard
  | .other sort => .other sort

/-- Writes down what a callback is given, and hands it on. -/
def Callback.overheard (f : Option (Callback α κ)) : Callback α (Heard α κ) := fun r w =>
  let (a, v) := shown f r w.unheard
  (a, v.hearing (w.records ++ [r]))

theorem Objective.call_overheard (o : Objective α (World α κ)) (x : Tensor α) (w : World α (Heard α κ)) :
    o.overheard.call x w = ((o.call x w.unheard).1, (o.call x w.unheard).2.hearing w.records) := by
  cases o with
  | combined | custom => rfl
  | split v g =>
      simp only [overheard, call, Callable.overheard]
      rcases v x w.unheard with ⟨_ | _ | _ | _, c⟩ <;> rfl

theorem Objective.overheard_tandem (o : Objective α (World α κ)) :
    o.Tandem (fun w w' => w'.unheard = w) o.overheard := by
  rintro x _ w rfl
  rw [call_overheard]
  exact ⟨rfl, rfl⟩

theorem Offer.adapt_overheard (offer : Offer α (World α κ)) :
    offer.overheard.adapt = offer.adapt.map Objective.overheard := by
  cases offer with
  | objective | function | other => rfl
  | object sort v g | pair v g => cases v <;> cases g <;> rfl

theorem Offer.overheard_tandem (offer : Offer α (World α κ)) :
    offer.Tandem (fun w w' => w'.unheard = w) offer.overheard := by
  have hadapt := offer.adapt_overheard
  cases h : offer.adapt with
  | error why =>
      rw [h] at hadapt
      exact .refused h hadapt
  | ok f =>
      rw [h] at hadapt
      exact .adapted h hadapt f.overheard_tandem

theorem Callback.overheard_tandem (f : Option (Callback α κ)) :
    Callback.Tandem (fun w w' => w'.unheard = w) f (some (overheard f)) := by
  rintro r _ w rfl
  exact ⟨rfl, rfl⟩

end

namespace Run

variable {α κ : Type} [Scalar α] {n : Nat} {s : Setup α (Heard α κ) n} {f : Objective α (World α κ)}
  {c : Option (Callback α κ)} {it : Iterate α n} {p : Progress α n} {w : World α (Heard α κ)}

theorem checking_heard (hc : s.callback = some (Callback.overheard c)) :
    (checking s it p w).world.records = w.records ++ (record? s ⟨.check it, p, w⟩).toList := by
  rw [checking_eq, (judged_kept _).2]
  cases hprevious : it.previous with
  | none => simp [reported, record?, hprevious]
  | some a =>
      simp only [reported, record?, hprevious, Option.bind_some, record_eq, hc]
      cases if w.session.debug then inspect s it else .ok () with
      | error why => exact (List.append_nil _).symm
      | ok _ =>
          have hclient : (w.emit s.id .iterations 20 (.iterated
              (report it a (s.bounds.projectedGradientNorm it.point.x it.point.g) p))).records = w.records :=
            World.records_of_client (World.client_emit _ _ _ _ _)
          exact congrArg (· ++ _) hclient

/-- What is overheard in a step is the record that the step makes. -/
theorem step_heard (hf : s.objective = f.overheard) (hc : s.callback = some (Callback.overheard c))
    (st : State α (Heard α κ) n) : (step s st).world.records = st.world.records ++ (record? s st).toList := by
  cases hit : st.phase.iterate? with
  | none =>
      rw [record?_of_iterate hit, Option.toList_none, List.append_nil]
      -- Neither a record in the log nor an evaluation is overheard.
      refine step_world (J := fun w => w.records = st.world.records) (fun needed level e _ w hw => ?_)
        (fun x w hw => ?_) hit rfl
      · exact (World.records_of_client (World.client_emit _ _ _ _ _)).trans hw
      · rw [hf, Objective.call_overheard]
        exact hw
  | some it =>
      obtain ⟨phase, p, w⟩ := st
      obtain rfl := Phase.iterate?_eq_some.mp hit
      exact checking_heard hc

theorem after_heard (hf : s.objective = f.overheard) (hc : s.callback = some (Callback.overheard c)) (m : Memory α n)
    (hw : w.records = []) (k : Nat) : (after s m w k).world.records = records s m w k := by
  induction k with
  | zero => exact hw
  | succ k ih => rw [after_succ, step_heard hf hc, ih, records_succ]

end Run

namespace Solver

variable {α κ : Type} (v : Solver α κ)

/-- The same solver for a client to whom somebody listens. -/
def overheard : Solver α (Heard α κ) := v.serving (some (Callback.overheard v.callback))

theorem closed_history (p : Problem α (World α κ)) (saved : Option Log.Saved) (st : State α κ p.n) :
    (v.closed p saved st).2.1.history = st.progress.history := by
  obtain ⟨phase, progress, w⟩ := st
  cases phase <;> rfl

variable [Scalar α]

/-- The records that a minimisation passes to the callback. Where there is no callback, they are those that it would
pass to one. -/
def told (offer : Offer α (World α κ)) (start : Start α) (options : Except (Fault α) (Options α)) (w : World α κ) :
    List (Record α) :=
  (v.overheard.minimize offer.overheard start options (w.hearing [])).2.2.records

/-- The history that a run leaves behind is what its callback was told, however the run ends. -/
theorem history_eq_told {offer : Offer α (World α κ)} {start : Start α} {o : Options α} {p : Problem α (World α κ)}
    (hp : prepare (.ok o) offer start = .ok p) (hkeep : o.keepHistory.holds = true) {w : World α κ}
    (hrun : w.isRunning v.id = false) :
    (v.minimize offer start (.ok o) w).2.1.history = v.told offer start (.ok o) w := by
  have hlevel : Level (fun w w' => w'.unheard = w) (some (Callback.overheard v.callback))
      (v.minimize offer start (.ok o) w) (v.overheard.minimize offer.overheard start (.ok o) (w.hearing [])) :=
    minimize_level World.unheard_bond (Callback.overheard_tandem v.callback) offer.overheard_tandem start (.ok o) rfl
  have hhistory : (v.minimize offer start (.ok o) w).2.1.history =
      (v.overheard.minimize offer.overheard start (.ok o) (w.hearing [])).2.1.history :=
    (congrArg history hlevel.solver).symm
  rw [hhistory, told]
  rcases prepare_tandem offer.overheard_tandem (.ok o) start with ⟨why, hp', -⟩ | ⟨p', f', hp', hprepare, -⟩
  · cases hp.symm.trans hp'
  · cases hp.symm.trans hp'
    obtain ⟨rfl, -⟩ := prepare_options hp
    obtain ⟨f, -, hf⟩ := map_eq_ok ((offer.adapt_overheard).symm.trans (prepare_options hprepare).2)
    have hrun' : (w.hearing []).isRunning v.overheard.id = false := hrun
    have hsilent : ((w.hearing []).enter v.id p.options.verbosity).1.records = [] := by
      simp only [World.enter]
      split <;> rfl
    have hheard := Run.after_heard (s := v.overheard.toSetup (p.serving f')) hf.symm rfl
      (.renew v.memory p.n p.options.depth) hsilent (Run.fuel p.options.iterations.rounds)
    rw [minimize_of_prepare hrun' hprepare, solve_eq, closed_history, World.records_of_client (closed_client _ _ _ _),
      final_eq_trace]
    exact (Run.after_history hkeep _).trans hheard.symm

end Solver

end BoxBfgs
