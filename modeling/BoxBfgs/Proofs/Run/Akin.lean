import BoxBfgs.Proofs.Run.Nested

namespace BoxBfgs

def Event.refuses {α : Type} : Event α → Bool
  | .rejected _ => true
  | _ => false

namespace Log

variable {α : Type} (l : Log (Event α))

/-- The log without the records of calls that were refused. -/
def spared : Log (Event α) := { l with lines := l.lines.filter fun line => !line.message.refuses }

@[simp] theorem spared_spared : l.spared.spared = l.spared := by
  simp [spared]

theorem lineage_spared (g : Logger) (fuel : Nat) : l.spared.lineage g fuel = l.lineage g fuel := by
  induction fuel generalizing g with
  | zero => rfl
  | succ fuel ih =>
      have hparent : l.spared.parent? g = l.parent? g := rfl
      rw [lineage, lineage, hparent]
      cases l.parent? g with
      | none => rfl
      | some p => exact congrArg (g :: ·) (ih p)

theorem effective_spared (g : Logger) : l.spared.effective g = l.effective g := by
  rw [effective, lineage_spared]
  rfl

theorem spared_emit (name : String) (level : Level) (e : Event α) :
    (l.spared.emit name level e).spared = (l.emit name level e).spared := by
  have hfind : l.spared.find? name = l.find? name := rfl
  rw [emit, emit, hfind]
  cases l.find? name with
  | none => exact l.spared_spared
  | some g =>
      dsimp only
      rw [effective_spared]
      split
      · simp [spared]
      · exact l.spared_spared

/-- The record of a call that was refused is all that such a call changes. -/
theorem spared_emit_rejected (name : String) (level : Level) (why : Invalid α) :
    (l.emit name level (.rejected why)).spared = l.spared := by
  rw [emit]
  split
  · rfl
  · split
    · simp [spared, List.filter_map, Function.comp_def, Event.refuses]
    · rfl

theorem spared_lowered (name : String) (level : Level) : (l.lowered name level).spared = l.spared.lowered name level := by
  have hfind : l.spared.find? name = l.find? name := rfl
  rw [lowered, lowered, hfind]
  cases l.find? name with
  | none => rfl
  | some g =>
      dsimp only
      rw [effective_spared]
      rfl

end Log

/-- Worlds that differ in the records of calls that were refused, and in nothing else. -/
structure World.Akin {α κ : Type} (w w' : World α κ) : Prop where
  log : w'.session.log.spared = w.session.log.spared
  debug : w'.session.debug = w.session.debug
  running : w'.session.running = w.session.running
  client : w'.client = w.client

namespace World.Akin

variable {α κ : Type} {w w' u : World α κ}

theorem refl (w : World α κ) : w.Akin w := ⟨rfl, rfl, rfl, rfl⟩

theorem symm (h : w.Akin w') : w'.Akin w := ⟨h.log.symm, h.debug.symm, h.running.symm, h.client.symm⟩

theorem trans (h : w.Akin w') (h' : w'.Akin u) : w.Akin u :=
  ⟨h'.log.trans h.log, h'.debug.trans h.debug, h'.running.trans h.running, h'.client.trans h.client⟩

theorem mapLog {f : Log (Event α) → Log (Event α)} (hf : ∀ l, (f l.spared).spared = (f l).spared) (h : w.Akin w') :
    (w.mapLog f).Akin (w'.mapLog f) where
  log := (hf _).symm.trans ((congrArg (fun l => (f l).spared) h.log).trans (hf _))
  debug := h.debug
  running := h.running
  client := h.client

theorem emit (id : Nat) (needed : Verbosity) (level : Level) (e : Event α) (h : w.Akin w') :
    (w.emit id needed level e).Akin (w'.emit id needed level e) := by
  rw [World.emit, World.emit, verbosity, verbosity, h.running]
  split
  · exact h.mapLog fun l => l.spared_emit _ _ _
  · exact h

theorem save (h : w.Akin w') (name : String) : w'.session.log.save? name = w.session.log.save? name := by
  have hsave (l : Log (Event α)) : l.save? name = l.spared.save? name := rfl
  rw [hsave, hsave w.session.log, h.log]

theorem bond : World.Bond (World.Akin (α := α) (κ := κ)) where
  debug := debug
  running := running
  emit id needed level e _ _ h := h.emit id needed level e
  rejected why _ _ h := h.mapLog fun l => l.spared_emit _ _ _
  enter id verbosity w w' h := by
    have hrunning : ({ w with session := { w.session with running := (id, verbosity) :: w.session.running } }).Akin
        { w' with session := { w'.session with running := (id, verbosity) :: w'.session.running } } :=
      ⟨h.log, h.debug, congrArg ((id, verbosity) :: ·) h.running, h.client⟩
    simp only [enter]
    cases verbosity.level? with
    | none => exact ⟨rfl, hrunning⟩
    | some level =>
        have hlowered := hrunning.mapLog (f := fun l => l.lowered logger (.number level)) fun l => by
          rw [← Log.spared_lowered, Log.spared_spared]
        exact ⟨h.save _, hlowered⟩
  leave id saved w w' h := by
    cases saved with
    | none => exact ⟨h.log, h.debug, congrArg (List.filter _) h.running, h.client⟩
    | some s =>
        have hrestored := h.mapLog (f := fun l => l.restored s) fun l => by
          change (l.restored s).spared.spared = _
          rw [Log.spared_spared]
        exact ⟨hrestored.log, h.debug, congrArg (List.filter _) h.running, h.client⟩

end World.Akin

end BoxBfgs
