import BoxBfgs.Proofs.Log
import BoxBfgs.Proofs.Run.Nested

namespace BoxBfgs

namespace World

variable {α κ : Type} {w y z : World α κ} {id : Nat} {verbosity : Verbosity}

/-- Worlds with the same solvers running, and a log with the same levels. -/
structure Alike (w y : World α κ) : Prop where
  running : y.session.running = w.session.running
  log : w.session.log.Same y.session.log

theorem Alike.rfl : Alike w w := ⟨Eq.refl _, .rfl⟩

theorem Alike.trans (h : Alike w y) (h' : Alike y z) : Alike w z :=
  ⟨h'.running.trans h.running, h.log.trans h'.log⟩

theorem Alike.isRunning_eq (h : Alike w y) (id : Nat) : y.isRunning id = w.isRunning id := by
  rw [isRunning, isRunning, h.running]

theorem Alike.verbosity_eq (h : Alike w y) (id : Nat) : y.verbosity id = w.verbosity id := by
  rw [World.verbosity, World.verbosity, h.running]

theorem alike_emit (w : World α κ) (id : Nat) (needed : Verbosity) (level : Level) (e : Event α) :
    Alike w (w.emit id needed level e) := by
  rw [emit]
  split
  · exact ⟨Eq.refl _, Log.same_emit _ _ _ _⟩
  · exact .rfl

theorem verbosity_of_not_running (h : w.isRunning id = false) : w.verbosity id = .silent := by
  rw [isRunning, List.any_eq_false] at h
  rw [World.verbosity, List.find?_eq_none.mpr fun r hr => h r hr]
  rfl

theorem level?_ne_zero {i : Int} (h : verbosity.level? = some i) : (Level.number i).value ≠ 0 := by
  cases verbosity <;> cases h <;> decide

/-- A solver that starts to run leaves the log as it is or lowers it, and keeps the levels from before. -/
theorem enter_log (w : World α κ) (id : Nat) (verbosity : Verbosity) :
    ((w.enter id verbosity).1.session.log = w.session.log ∧ (w.enter id verbosity).2 = none) ∨
      ∃ level : Level, level.value ≠ 0 ∧
        (w.enter id verbosity).1.session.log = w.session.log.lowered logger level ∧
        (w.enter id verbosity).2 = w.session.log.save? logger := by
  simp only [enter]
  split
  · exact .inl ⟨rfl, rfl⟩
  · rename_i i hi
    exact .inr ⟨.number i, level?_ne_zero hi, rfl, rfl⟩

theorem enter_running (w : World α κ) (id : Nat) (verbosity : Verbosity) :
    (w.enter id verbosity).1.session.running = (id, verbosity) :: w.session.running := by
  simp only [enter]
  split <;> rfl

theorem client_leave (w : World α κ) (id : Nat) (saved : Option Log.Saved) : (w.leave id saved).client = w.client := by
  cases saved <;> rfl

theorem enter_covers (w : World α κ) (id : Nat) (verbosity : Verbosity) :
    (w.enter id verbosity).1.session.log.Covers w.session.log := by
  rcases w.enter_log id verbosity with ⟨hlog, -⟩ | ⟨level, hzero, hlog, -⟩
  · rw [hlog]
    exact Log.Same.rfl.covers
  · rw [hlog]
    exact Log.covers_lowered _ hzero

theorem enter_distinct (h : w.session.log.Distinct) : (w.enter id verbosity).1.session.log.Distinct := by
  rcases w.enter_log id verbosity with ⟨hlog, -⟩ | ⟨level, -, hlog, -⟩
  · rwa [hlog]
  · rw [hlog]
    exact h.lowered level

/-- A solver that ends its run leaves a world as it was before, but for what the client did. -/
theorem Alike.left (h : Alike (w.enter id verbosity).1 y) (hrun : w.isRunning id = false)
    (hd : w.session.log.Distinct) : Alike w (y.leave id (w.enter id verbosity).2) := by
  have hothers : ((id, verbosity) :: w.session.running).filter (fun r => r.1 != id) = w.session.running := by
    rw [isRunning, List.any_eq_false] at hrun
    rw [List.filter_cons_of_neg (by simp), List.filter_eq_self]
    intro r hr
    simpa using hrun r hr
  obtain ⟨hrunning, hlog⟩ := h
  rw [enter_running] at hrunning
  refine ⟨?_, ?_⟩
  · rw [← hothers, ← hrunning]
    simp only [leave]
    split <;> rfl
  · rcases w.enter_log id verbosity with ⟨hsame, hsaved⟩ | ⟨level, -, hlowered, hsaved⟩
    · rw [hsaved]
      rwa [hsame] at hlog
    · rw [hsaved]
      rw [hlowered] at hlog
      cases hs : w.session.log.save? logger with
      | none => rwa [Log.lowered_of_save? hs] at hlog
      | some s => exact hlog.restored hd hs

end World

section

variable {α κ : Type} (seen : κ → List (Log (Event α)))

/-- From a world to what a client makes of it. The client does what it likes, but leaves the levels of the log alone; it
looks at the log and keeps what it saw; and it asks solvers for minimisations, with functions that do the same. -/
inductive Conduct [Scalar α] : World α κ → World α κ → Prop
  | rest {w : World α κ} : Conduct w w
  | work {w y z : World α κ} (h : Conduct w y) (hz : y.Alike z) (hseen : seen z.client = seen y.client) : Conduct w z
  | look {w y z : World α κ} (h : Conduct w y) (hz : y.Alike z)
      (hseen : seen z.client = seen y.client ++ [y.session.log]) : Conduct w z
  | minimize {w y : World α κ} (h : Conduct w y) (v : Solver α κ) (offer : Offer α (World α κ)) (start : Start α)
      (options : Except (Fault α) (Options α))
      (hf : ∀ f, offer.adapt = .ok f → ∀ x {y}, y.isRunning v.id = true → Conduct y (f.call x y).2)
      (hc : ∀ r {y}, y.isRunning v.id = true → Conduct y (Callback.shown v.callback r y).2) :
      Conduct w (v.minimize offer start options y).2.2

/-- A world after another, alike, with what was seen in between: logs that let through what the first one does. -/
structure Steady (w y : World α κ) : Prop extends w.Alike y where
  seen : ∃ logs, seen y.client = seen w.client ++ logs ∧ ∀ l ∈ logs, l.Covers w.session.log

variable {seen} {w y z : World α κ}

theorem Steady.of_alike (h : w.Alike y) (hseen : seen y.client = seen w.client) : Steady seen w y :=
  ⟨h, [], by rw [hseen, List.append_nil], nofun⟩

theorem Steady.trans (h : Steady seen w y) (h' : Steady seen y z) : Steady seen w z := by
  obtain ⟨logs, hlogs, hcovers⟩ := h.seen
  obtain ⟨logs', hlogs', hcovers'⟩ := h'.seen
  refine ⟨h.toAlike.trans h'.toAlike, logs ++ logs', by rw [hlogs', hlogs, List.append_assoc], ?_⟩
  rw [List.forall_mem_append]
  exact ⟨hcovers, fun l hl => (hcovers' l hl).trans h.log.covers⟩

/-- A client's functions that leave a world steady while a solver runs in it. -/
structure Steadies (seen : κ → List (Log (Event α))) (id : Nat) (f : Objective α (World α κ))
    (c : Option (Callback α κ)) : Prop where
  objective : ∀ x {w}, w.isRunning id = true → w.session.log.Distinct → Steady seen w (f.call x w).2
  callback : ∀ r {w}, w.isRunning id = true → w.session.log.Distinct → Steady seen w (Callback.shown c r w).2

namespace Solver

theorem closed_id (v : Solver α κ) (p : Problem α (World α κ)) (saved : Option Log.Saved) (st : State α κ p.n) :
    (v.closed p saved st).2.1.id = v.id := by
  simp only [closed]
  split <;> rfl

/-- A solver closes with at most one more record. -/
theorem closed_world (v : Solver α κ) (p : Problem α (World α κ)) (saved : Option Log.Saved) (st : State α κ p.n) :
    ∃ y, st.world.Alike y ∧ y.client = st.world.client ∧ (v.closed p saved st).2.2 = y.leave v.id saved := by
  simp only [closed]
  split
  · exact ⟨_, st.world.alike_emit _ _ _ _, World.client_emit _ _ _ _ _, rfl⟩
  · exact ⟨_, .rfl, rfl, rfl⟩
  · exact ⟨_, .rfl, rfl, rfl⟩

theorem reject_steady (start : Start α) (why : Invalid α) (w : World α κ) : Steady seen w (reject start why w).2 := by
  simp only [reject]
  split
  · exact .of_alike .rfl rfl
  · exact .of_alike ⟨rfl, Log.same_emit _ _ _ _⟩ rfl
  · exact .of_alike ⟨rfl, Log.same_emit _ _ _ _⟩ rfl

variable [Scalar α] {v : Solver α κ} {p : Problem α (World α κ)}

theorem trace_steady (h : Steadies seen v.id p.objective v.callback) (hd : w.session.log.Distinct) (k : Nat) :
    Steady seen (w.enter v.id p.options.verbosity).1 (v.trace p w k).world := by
  have hserves {y : World α κ} (hy : Steady seen (w.enter v.id p.options.verbosity).1 y) :
      y.isRunning v.id = true ∧ y.session.log.Distinct :=
    ⟨(hy.isRunning_eq v.id).trans (w.isRunning_enter _), hy.log.distinct (World.enter_distinct hd)⟩
  refine Run.after_world (s := v.toSetup p) (J := Steady seen (w.enter v.id p.options.verbosity).1)
    (fun needed level e _ y hy => ?_) (fun x y hy => ?_) (fun r y hy => ?_) _ (.of_alike .rfl rfl) k
  · exact hy.trans (.of_alike (y.alike_emit _ _ _ _) (congrArg seen (World.client_emit _ _ _ _ _)))
  · obtain ⟨hrunning, hdistinct⟩ := hserves hy
    exact hy.trans (h.objective x hrunning hdistinct)
  · obtain ⟨hrunning, hdistinct⟩ := hserves hy
    exact hy.trans (h.callback r hrunning hdistinct)

theorem solve_steady (h : Steadies seen v.id p.objective v.callback) (hrun : w.isRunning v.id = false)
    (hd : w.session.log.Distinct) : Steady seen w (v.solve p w).2.2 := by
  have hfinal := trace_steady h hd (Run.fuel p.options.iterations.rounds)
  rw [solve_eq, final_eq_trace]
  obtain ⟨y, halike, hclient, hworld⟩ := v.closed_world p (w.enter v.id p.options.verbosity).2
    (v.trace p w (Run.fuel p.options.iterations.rounds))
  have hy := hfinal.trans (.of_alike halike (congrArg seen hclient))
  obtain ⟨logs, hlogs, hcovers⟩ := hy.seen
  rw [hworld]
  refine ⟨hy.toAlike.left hrun hd, logs, ?_, fun l hl => (hcovers l hl).trans (w.enter_covers _ _)⟩
  rw [World.client_leave, hlogs, World.client_enter]

theorem minimize_steady (v : Solver α κ) (offer : Offer α (World α κ)) (start : Start α)
    (options : Except (Fault α) (Options α)) (h : ∀ f, offer.adapt = .ok f → Steadies seen v.id f v.callback)
    (hd : w.session.log.Distinct) : Steady seen w (v.minimize offer start options w).2.2 := by
  cases hrun : w.isRunning v.id with
  | true =>
      rw [minimize_of_running hrun]
      exact .of_alike .rfl rfl
  | false =>
      cases hp : prepare options offer start with
      | error why =>
          rw [minimize, hrun, hp]
          cases why with
          | invalid why => exact reject_steady start why w
          | _ => exact .of_alike .rfl rfl
      | ok p =>
          cases options with
          | error why => cases hp
          | ok o =>
              rw [minimize_of_prepare hrun hp]
              exact solve_steady (h _ (prepare_options hp).2) hrun hd

end Solver

theorem Conduct.steady [Scalar α] (h : Conduct seen w y) (hd : w.session.log.Distinct) : Steady seen w y := by
  induction h with
  | rest => exact .of_alike .rfl rfl
  | work _ hz hseen ih => exact (ih hd).trans (.of_alike hz hseen)
  | @look w y z _ hz hseen ih =>
      refine (ih hd).trans ⟨hz, [y.session.log], hseen, ?_⟩
      rw [List.forall_mem_singleton]
      exact Log.Same.rfl.covers
  | @minimize w y _ v offer start options _ _ ih hf hc =>
      have hy := ih hd
      refine hy.trans (v.minimize_steady offer start options (fun f ha => ⟨?_, ?_⟩) (hy.log.distinct hd))
      · exact fun x w hrun hd => hf f ha x hrun hd
      · exact fun r w hrun hd => hc r hrun hd

namespace Solver

variable [Scalar α]

theorem minimize_id (v : Solver α κ) (offer : Offer α (World α κ)) (start : Start α)
    (options : Except (Fault α) (Options α)) (w : World α κ) : (v.minimize offer start options w).2.1.id = v.id := by
  rw [minimize]
  split
  · rfl
  · split
    · exact v.closed_id _ _ _
    · rfl
    · rfl

/-- What a call of a solver comes to, as far as the solvers and the levels of the log go. -/
structure Restored (seen : κ → List (Log (Event α))) (v : Solver α κ) (w : World α κ)
    (r : Except (Fault α) (Answer α) × Solver α κ × World α κ) : Prop where
  /-- A solver that is running refuses. -/
  refused : w.isRunning v.id = true → r = (.error .reentered, v, w)
  /-- Otherwise it does not run afterwards, is silent, and takes the next call. -/
  free : w.isRunning v.id = false → r.2.2.isRunning v.id = false ∧ r.2.2.verbosity v.id = .silent ∧
    ∀ offer start options p, prepare options offer start = .ok p →
      r.2.1.minimize offer start options r.2.2 = r.2.1.solve p r.2.2
  solvers : ∀ id, r.2.2.isRunning id = w.isRunning id ∧ r.2.2.verbosity id = w.verbosity id
  levels : r.2.2.session.log.save? World.logger = w.session.log.save? World.logger
  /-- What the functions of clients saw, however deep in calls from calls. -/
  seen : ∃ logs, seen r.2.2.client = seen w.client ++ logs ∧ ∀ l ∈ logs, l.Covers w.session.log

/-- However a call ends, it leaves the solvers and the levels as they were, and during the call the log lets through at
least what it let through before. -/
theorem minimize_restores (v : Solver α κ) (offer : Offer α (World α κ)) (start : Start α)
    (options : Except (Fault α) (Options α)) (hd : w.session.log.Distinct)
    (hf : ∀ f, offer.adapt = .ok f → ∀ x {y}, y.isRunning v.id = true → Conduct seen y (f.call x y).2)
    (hc : ∀ r {y}, y.isRunning v.id = true → Conduct seen y (Callback.shown v.callback r y).2) :
    Restored seen v w (v.minimize offer start options w) ∧
      (w.isRunning v.id = false → ∀ p, prepare options offer start = .ok p → ∀ k,
        (v.trace p w k).world.session.log.Covers w.session.log) := by
  have hsteadies (f : Objective α (World α κ)) (hadapt : offer.adapt = .ok f) : Steadies seen v.id f v.callback :=
    ⟨fun x _ hrun hd => (hf f hadapt x hrun).steady hd, fun r _ hrun hd => (hc r hrun).steady hd⟩
  have hsteady := v.minimize_steady offer start options hsteadies hd
  refine ⟨⟨fun hrun => minimize_of_running hrun offer start options, fun hrun => ?_,
    fun id => ⟨hsteady.isRunning_eq id, hsteady.verbosity_eq id⟩, hsteady.log.levels, hsteady.seen⟩, fun _ p hp k => ?_⟩
  · have hfree := (hsteady.isRunning_eq v.id).trans hrun
    refine ⟨hfree, World.verbosity_of_not_running hfree, fun offer' start' options' p hp => ?_⟩
    rw [← v.minimize_id offer start options w] at hfree
    exact minimize_of_prepare hfree hp
  · cases options with
    | error why => cases hp
    | ok o =>
        have hrunning := trace_steady (hsteadies _ (prepare_options hp).2) hd k
        exact hrunning.log.covers.trans (w.enter_covers _ _)

/-- A client's function that looks at the log. -/
noncomputable def attentiveSquare : Callable ℝ (World ℝ (List (Log (Event ℝ)))) (ℝ × Tensor ℝ) := fun x w =>
  let a := x.entries.headD 0
  (.answer (a * a, .ofVector (.replicate 1 (a + a))), { w with client := w.client ++ [w.session.log] })

noncomputable def chattyOptions (verbosity : Verbosity) : Options ℝ := { (.standard : Options ℝ) with verbosity }

noncomputable def chattySolver (id : Nat) (verbosity : Verbosity) : Solver ℝ (List (Log (Event ℝ))) :=
  { id, options := chattyOptions verbosity }

/-- A function that asks another solver, one that says more, for a minimisation before it answers. -/
noncomputable def askingSquare : Callable ℝ (World ℝ (List (Log (Event ℝ)))) (ℝ × Tensor ℝ) := fun x w =>
  attentiveSquare x ((chattySolver 1 .verbose).minimize (.function attentiveSquare) (.array [1] [1])
    (.ok (chattyOptions .verbose)) w).2.2

theorem minimize_restores_nested : ∃ w', ((chattySolver 0 .summary).minimize (.function askingSquare)
      (.array [1] [1]) (.ok (chattyOptions .summary)) { session := { log := World.firstLog }, client := [] }).2.2 = w' ∧
    w'.isRunning 0 = false ∧ w'.isRunning 1 = false ∧
    w'.session.log.save? World.logger = some { logger := World.logger, level := 30, handlers := [(0, 30)] } ∧
    ∀ l ∈ w'.client, l.Covers World.firstLog := by
  have hlook {w y : World ℝ (List (Log (Event ℝ)))} (h : Conduct (fun logs => logs) w y) (x : Tensor ℝ) :
      Conduct (fun logs => logs) w (attentiveSquare x y).2 := by
    have halike : y.Alike (attentiveSquare x y).2 := ⟨rfl, .rfl⟩
    exact h.look halike rfl
  have hinner : ∀ f, (Offer.function attentiveSquare).adapt = .ok f → ∀ x {y}, y.isRunning 1 = true →
      Conduct (fun logs => logs) y (f.call x y).2 := by
    rintro f ⟨⟩ x y -
    exact hlook .rest x
  have houter : ∀ f, (Offer.function askingSquare).adapt = .ok f → ∀ x {y}, y.isRunning 0 = true →
      Conduct (fun logs => logs) y (f.call x y).2 := by
    rintro f ⟨⟩ x y -
    exact hlook (.minimize .rest (chattySolver 1 .verbose) _ _ _ hinner fun _ _ _ => .rest) x
  obtain ⟨h, -⟩ := minimize_restores (w := { session := { log := World.firstLog }, client := [] })
    (chattySolver 0 .summary) (.function askingSquare) (.array [1] [1]) (.ok (chattyOptions .summary))
    Log.Made.first.distinct houter fun _ _ _ => .rest
  have hname : Log.fullName (some World.logger) = World.logger := by decide +kernel
  have hfirst : (World.firstLog : Log (Event ℝ)).save? World.logger =
      some { logger := World.logger, level := 30, handlers := [(0, 30)] } := by
    simp [World.firstLog, Log.getAt, Log.save?, Log.find?, hname]
  obtain ⟨logs, hlogs, hcovers⟩ := h.seen
  refine ⟨_, rfl, (h.free rfl).1, (h.solvers 1).1, h.levels.trans hfirst, ?_⟩
  rwa [← List.nil_append logs, ← hlogs] at hcovers

end Solver

end

end BoxBfgs
