import BoxBfgs.Proofs.Run.Exact
import BoxBfgs.Proofs.Run.Tandem

namespace BoxBfgs

theorem Log.emit_of_above {μ : Type} {l : Log μ} {name : String} {level : Level} {message : μ}
    (h : ∀ g, l.find? name = some g → (l.effective g).above level = true) : l.emit name level message = l := by
  rw [emit]
  split
  · rfl
  · rename_i g hg
    rw [h g hg]
    simp

namespace World

variable {α κ : Type} (w : World α κ) {id : Nat}

theorem emit_of_silent (h : w.verbosity id = .silent) (needed : Verbosity) (level : Level) (e : Event α)
    (hloud : needed ≠ .silent) : w.emit id needed level e = w := by
  rw [emit, h, if_neg]
  cases needed with
  | silent => exact absurd rfl hloud
  | summary | iterations | verbose => decide

theorem enter_silent (id : Nat) : (w.enter id .silent).2 = none ∧ (w.enter id .silent).1.session.log = w.session.log ∧
    (w.enter id .silent).1.verbosity id = .silent := by
  refine ⟨rfl, rfl, ?_⟩
  simp [enter, Verbosity.level?, verbosity]

end World

/-- A client whose functions keep a silent solver silent while it runs. -/
structure Hushed {α κ : Type} (id : Nat) (f : Objective α (World α κ)) (c : Option (Callback α κ)) : Prop where
  objective : ∀ x {w}, w.verbosity id = .silent → (f.call x w).2.verbosity id = .silent
  callback : ∀ r {w}, w.verbosity id = .silent → (Callback.shown c r w).2.verbosity id = .silent

/-- What the functions of a client make of a log, one call after the other. -/
inductive Written {α κ : Type} (f : Objective α (World α κ)) (c : Option (Callback α κ)) (l : Log (Event α)) :
    Log (Event α) → Prop
  | nothing : Written f c l l
  | called (x : Tensor α) (w : World α κ) (h : Written f c l w.session.log) : Written f c l (f.call x w).2.session.log
  | shown (r : Record α) (w : World α κ) (h : Written f c l w.session.log) :
      Written f c l (Callback.shown c r w).2.session.log

theorem Written.eq {α κ : Type} {f : Objective α (World α κ)} {c : Option (Callback α κ)} {l l' : Log (Event α)}
    (hf : ∀ x w, (f.call x w).2.session.log = w.session.log)
    (hc : ∀ r w, (Callback.shown c r w).2.session.log = w.session.log) (h : Written f c l l') : l' = l := by
  induction h with
  | nothing => rfl
  | called x w _ ih => exact (hf x w).trans ih
  | shown r w _ ih => exact (hc r w).trans ih

namespace Solver

variable {α κ : Type} {v : Solver α κ} {w : World α κ}

theorem closed_silent {p : Problem α (World α κ)} {st : State α κ p.n} (h : st.world.verbosity v.id = .silent) :
    (v.closed p none st).2.2.session.log = st.world.session.log := by
  have hleave (w : World α κ) : (w.leave v.id none).session.log = w.session.log := rfl
  simp only [closed]
  split
  · rw [hleave, World.emit_of_silent _ h .summary _ _ (by decide)]
  · rfl
  · rfl

theorem reject_log (start : Start α) (why : Invalid α) (w : World α κ) :
    (reject start why w).2.session.log = w.session.log ∨ ∃ g, w.session.log.find? World.logger = some g ∧
      (w.session.log.effective g).above 10 = false ∧
      (reject start why w).2.session.log = w.session.log.emit World.logger 10 (.rejected why) := by
  have hrecord : w.session.log.emit World.logger 10 (.rejected why) = w.session.log ∨
      ∃ g, w.session.log.find? World.logger = some g ∧ (w.session.log.effective g).above 10 = false := by
    by_cases h : ∃ g, w.session.log.find? World.logger = some g ∧ (w.session.log.effective g).above 10 = false
    · exact .inr h
    · refine .inl (Log.emit_of_above fun g hg => ?_)
      rw [← Bool.not_eq_false]
      exact fun hlow => h ⟨g, hg, hlow⟩
  simp only [reject]
  rcases hrecord with hsame | ⟨g, hg, hlow⟩
  · left
    split
    · rfl
    · exact hsame
    · exact hsame
  · split
    · exact .inl rfl
    · exact .inr ⟨g, hg, hlow, rfl⟩
    · exact .inr ⟨g, hg, hlow, rfl⟩

variable [Scalar α]

/-- A silent run writes nothing that its client does not write. -/
theorem trace_silent {p : Problem α (World α κ)} (hp : p.options.verbosity = .silent)
    (h : Hushed v.id p.objective v.callback) (k : Nat) : (v.trace p w k).world.verbosity v.id = .silent ∧
      Written p.objective v.callback w.session.log (v.trace p w k).world.session.log := by
  obtain ⟨-, hlog, hverbosity⟩ := w.enter_silent v.id
  rw [trace, hp]
  refine Run.after_world (s := v.toSetup p)
    (J := fun w' => w'.verbosity v.id = .silent ∧ Written p.objective v.callback w.session.log w'.session.log)
    (fun needed level e hloud w' hw => ?_) (fun x w' hw => ⟨h.objective x hw.1, hw.2.called x w'⟩)
    (fun r w' hw => ⟨h.callback r hw.1, hw.2.shown r w'⟩) _ ⟨hverbosity, ?_⟩ k
  · -- Every record of a run needs some verbosity, and a silent solver has none.
    have hsame := w'.emit_of_silent hw.1 needed level e hloud
    rwa [← hsame] at hw
  · rw [hlog]
    exact .nothing

/-- A silent call that is not refused leaves the log as its client's functions leave it. One that is refused leaves at
most one record, the reason, where the level of the logger lets it through. -/
theorem minimize_silent (v : Solver α κ) (offer : Offer α (World α κ)) (start : Start α)
    {options : Except (Fault α) (Options α)} (ho : ∀ o, options = .ok o → o.verbosity = .silent)
    (hf : ∀ f, offer.adapt = .ok f → Hushed v.id f v.callback) (w : World α κ) :
    (∀ p, prepare options offer start = .ok p →
      Written p.objective v.callback w.session.log (v.minimize offer start options w).2.2.session.log) ∧
    ∀ why, prepare options offer start = .error why →
      (v.minimize offer start options w).2.2.session.log = w.session.log ∨
        ∃ g why, w.session.log.find? World.logger = some g ∧ (w.session.log.effective g).above 10 = false ∧
          (v.minimize offer start options w).2.2.session.log = w.session.log.emit World.logger 10 (.rejected why) := by
  constructor
  · intro p hp
    cases options with
    | error why => cases hp
    | ok o =>
        obtain ⟨hoptions, hadapt⟩ := prepare_options hp
        have hsilent : p.options.verbosity = .silent := hoptions ▸ ho o rfl
        cases hrun : w.isRunning v.id with
        | true =>
            rw [minimize, hrun, if_pos rfl]
            exact .nothing
        | false =>
            obtain ⟨hverbosity, hwritten⟩ := trace_silent (w := w) hsilent (hf _ hadapt)
              (Run.fuel p.options.iterations.rounds)
            have hsaved : (w.enter v.id p.options.verbosity).2 = none := hsilent ▸ (w.enter_silent v.id).1
            rw [minimize_of_prepare hrun hp, solve_eq, final_eq_trace, hsaved, closed_silent hverbosity]
            exact hwritten
  · intro why hp
    rw [minimize, hp]
    split
    · exact .inl rfl
    · cases why with
      | invalid why =>
          rcases reject_log start why w with h | ⟨g, hg, hlow, h⟩
          · exact .inl h
          · exact .inr ⟨g, why, hg, hlow, h⟩
      | _ => exact .inl rfl

/-- A log in which the logger of the solvers lets everything through. -/
def attentive : Log (Event ℝ) :=
  { loggers := [{ name := World.logger, level := 10,
                  handlers := [{ id := 0, level := 10, format := "", sink := .errors }] }] }

/-- For a client who writes nothing. -/
theorem minimize_silent_square : (squareSolver.minimize (.function square) (.array [1] [1]) (.ok .standard)
    { session := { log := attentive }, client := () }).2.2.session.log = attentive := by
  have hp : prepare (.ok .standard) (.function square) (.array [1] [1]) = .ok squareProblem := rfl
  have hsilent : ∀ o, (.ok .standard : Except (Fault ℝ) (Options ℝ)) = .ok o → o.verbosity = .silent := by
    intro o ho
    cases ho
    rfl
  have hhushed : ∀ f, (Offer.function square).adapt = .ok f → Hushed squareSolver.id f squareSolver.callback := by
    intro f hf
    cases hf
    exact ⟨fun _ _ hw => hw, fun _ _ hw => hw⟩
  obtain ⟨hwritten, -⟩ := minimize_silent squareSolver (.function square) (.array [1] [1]) hsilent hhushed
    { session := { log := attentive }, client := () }
  exact (hwritten _ hp).eq (fun _ _ => rfl) fun _ _ => rfl

/-- A start without entries is refused, and the reason is written although the solver is silent. -/
theorem minimize_empty_written : (Options.standard : Options ℝ).verbosity = .silent ∧
    (squareSolver.minimize (.function square) (.array [0] []) (.ok .standard)
      { session := { log := attentive }, client := () }).2.2.session.log.lines =
      [{ sink := .errors, format := "", level := 10, logger := World.logger,
         message := .rejected (.start (.shape [0])) }] :=
  ⟨rfl, rfl⟩

end Solver

end BoxBfgs
