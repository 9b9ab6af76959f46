import BoxBfgs.Proofs.Basic
import BoxBfgs.Solver.World

namespace BoxBfgs.Log

theorem above_logger : above World.logger = [packageName] := by decide +kernel

theorem above_packageName : above packageName = [] := by decide +kernel

theorem packageName_ne : packageName ≠ World.logger := by decide +kernel

variable {μ : Type} {l l' k : Log μ} {name name' : String} {g : Logger} {level : Level} {s s' : Saved}

theorem name_of_find? (h : l.find? name = some g) : g.name = name := by
  simpa using List.find?_some h

theorem find?_map_loggers {u : Logger → Logger} (hu : ∀ g, (u g).name = g.name) (name : String) :
    ({ l with loggers := l.loggers.map u }).find? name = (l.find? name).map u := by
  simp only [find?, List.find?_map, Function.comp_def, hu]

theorem find?_emit (level : Level) (message : μ) : (l.emit name level message).find? name' = l.find? name' := by
  rw [emit]
  split
  · rfl
  · split <;> rfl

theorem find?_lowered (h : l.find? name = some g) (level : Level) :
    (l.lowered name level).find? name' = (l.find? name').map fun k =>
      if k.name == name then
        { k with
          level := if (l.effective g).above level then level else g.level
          handlers := g.handlers.map fun h => if h.level.above level then { h with level } else h }
      else k := by
  rw [lowered, h]
  exact find?_map_loggers (fun k => by split <;> rfl) name'

theorem find?_lowered_of_ne (h : name' ≠ name) (level : Level) :
    (l.lowered name level).find? name' = l.find? name' := by
  cases hg : l.find? name with
  | none => rw [lowered, hg]
  | some g =>
      rw [find?_lowered hg]
      cases hk : l.find? name' with
      | none => rfl
      | some k => simp [name_of_find? hk, h]

theorem find?_restored (l : Log μ) (s : Saved) (name : String) :
    (l.restored s).find? name = (l.find? name).map fun g =>
      if g.name == s.logger then
        { g with
          level := s.level
          handlers := g.handlers.map fun h =>
            match s.handlers.find? fun e => e.1 == h.id with
            | some e => { h with level := e.2 }
            | none => h }
      else g :=
  find?_map_loggers (fun g => by split <;> rfl) name

/-- The level that the logger of the solvers has where it has none of its own. -/
def inherited (l : Log μ) : Level :=
  match l.find? packageName with
  | some p => if p.level.value ≠ 0 then p.level else 30
  | none => 30

theorem effective_eq (h : l.find? World.logger = some g) :
    l.effective g = if g.level.value ≠ 0 then g.level else l.inherited := by
  have hparent : l.parent? g = l.find? packageName := by
    rw [parent?, name_of_find? h, above_logger]
    simp
  obtain ⟨n, hn⟩ : ∃ n, l.loggers.length = n + 1 :=
    Nat.exists_eq_add_one.mpr (List.length_pos_of_mem (List.mem_of_find?_eq_some h))
  rw [effective, inherited, hn, lineage, hparent]
  cases hp : l.find? packageName with
  | none => by_cases hg : g.level.value = 0 <;> simp [hg]
  | some p =>
      have hroot : l.parent? p = none := by
        rw [parent?, name_of_find? hp, above_packageName]
        rfl
      dsimp only
      rw [lineage, hroot]
      by_cases hg : g.level.value = 0 <;> by_cases hl : p.level.value = 0 <;> simp [hg, hl]

/-- The level of the solvers' logger where these levels were saved. -/
def Saved.effective (s : Saved) (l : Log μ) : Level := if s.level.value ≠ 0 then s.level else l.inherited

/-- What lowering makes of these levels. -/
def Saved.lowered (s : Saved) (l : Log μ) (level : Level) : Saved :=
  { s with
    level := if (s.effective l).above level then level else s.level
    handlers := s.handlers.map fun e => (e.1, if e.2.above level then level else e.2) }

/-- The handlers of the solvers' logger are told apart by their numbers. -/
def Distinct (l : Log μ) : Prop := ∀ s ∈ l.save? World.logger, (s.handlers.map Prod.fst).Nodup

/-- Logs in which the solvers' logger has the same levels, and inherits the same. -/
structure Same (l l' : Log μ) : Prop where
  levels : l'.save? World.logger = l.save? World.logger
  inherited : l'.inherited = l.inherited

theorem Same.rfl : Same l l := ⟨Eq.refl _, Eq.refl _⟩

theorem Same.trans (h : Same l l') (h' : Same l' k) : Same l k :=
  ⟨h'.levels.trans h.levels, h'.inherited.trans h.inherited⟩

theorem Same.distinct (h : Same l l') (hd : l.Distinct) : l'.Distinct := by
  rw [Distinct, h.levels]
  exact hd

theorem same_emit (l : Log μ) (name : String) (level : Level) (message : μ) : Same l (l.emit name level message) :=
  ⟨by rw [save?, save?, find?_emit], by rw [inherited, inherited, find?_emit]⟩

theorem save?_logger (h : l.save? World.logger = some s) : s.logger = World.logger := by
  obtain ⟨g, -, rfl⟩ := Option.map_eq_some_iff.mp h
  rfl

theorem save?_lowered (l : Log μ) (level : Level) :
    (l.lowered World.logger level).save? World.logger = (l.save? World.logger).map fun s => s.lowered l level := by
  cases hg : l.find? World.logger with
  | none => rw [lowered, hg, save?, hg]; rfl
  | some g =>
      rw [save?, find?_lowered hg, save?, hg]
      simp only [Option.map_some, name_of_find? hg, BEq.rfl, if_true, effective_eq hg, Saved.lowered, Saved.effective,
        List.map_map]
      congr 2
      exact List.map_congr_left fun h _ => by simp only [Function.comp_apply]; split <;> rfl

theorem inherited_lowered (l : Log μ) (level : Level) : (l.lowered World.logger level).inherited = l.inherited := by
  rw [inherited, inherited, find?_lowered_of_ne packageName_ne]

theorem lowered_of_save? (h : l.save? World.logger = none) (level : Level) : l.lowered World.logger level = l := by
  rw [lowered, Option.map_eq_none_iff.mp h]

theorem Distinct.lowered (h : l.Distinct) (level : Level) : (l.lowered World.logger level).Distinct := by
  intro s' hs'
  rw [save?_lowered] at hs'
  obtain ⟨s, hs, rfl⟩ := Option.map_eq_some_iff.mp hs'
  simpa [Saved.lowered, Function.comp_def] using h s hs

/-- A level of zero would not count, and let the inherited one through. -/
theorem effective_lowered (s : Saved) (l : Log μ) (h : level.value ≠ 0) :
    (s.lowered l level).effective (l.lowered World.logger level) =
      if (s.effective l).above level then level else s.effective l := by
  rw [Saved.effective, Saved.lowered, inherited_lowered]
  by_cases habove : (s.effective l).above level = true
  · rw [if_pos habove, if_pos habove, if_pos h]
  · rw [if_neg habove, if_neg habove, Saved.effective]

theorem find?_of_mem {levels : List (Nat × Level)} (h : (levels.map Prod.fst).Nodup) {e : Nat × Level}
    (he : e ∈ levels) : (levels.find? fun e' => e'.1 == e.1) = some e := by
  cases hfind : levels.find? fun e' => e'.1 == e.1 with
  | none => simpa using List.find?_eq_none.mp hfind e he
  | some e' =>
      have heq : e'.1 = e.1 := by simpa using List.find?_some hfind
      rw [List.inj_on_of_nodup_map h (List.mem_of_find?_eq_some hfind) he heq]

/-- Levels are restored to the handlers that have kept their numbers. -/
theorem save?_restored (hs : s.logger = World.logger) (hd : (s.handlers.map Prod.fst).Nodup)
    (h : l.save? World.logger = some s') (hnumbers : s'.handlers.map Prod.fst = s.handlers.map Prod.fst) :
    (l.restored s).save? World.logger = some s := by
  obtain ⟨g, hg, rfl⟩ := Option.map_eq_some_iff.mp h
  rw [save?, find?_restored, hg]
  obtain ⟨logger, level, handlers⟩ := s
  obtain rfl : logger = World.logger := hs
  simp only [Option.map_some, name_of_find? hg, BEq.rfl, if_true, List.map_map] at hnumbers ⊢
  congr 2
  have hlength : g.handlers.length = handlers.length := by simpa using congrArg List.length hnumbers
  refine List.ext_getElem (by simpa using hlength) fun i hi hi' => ?_
  have hbound : i < g.handlers.length := hlength ▸ hi'
  have hid : g.handlers[i].id = handlers[i].1 := by simpa [hi', hbound] using congrArg (fun l => l[i]?) hnumbers
  rw [List.getElem_map, Function.comp_apply, hid, find?_of_mem hd (List.getElem_mem hi')]

theorem inherited_restored (l : Log μ) (hs : s.logger = World.logger) : (l.restored s).inherited = l.inherited := by
  rw [inherited, inherited, find?_restored]
  cases hp : l.find? packageName with
  | none => rfl
  | some p => simp [name_of_find? hp, hs, packageName_ne]

/-- What was lowered is restored, whatever was written in between. -/
theorem Same.restored (h : Same (l.lowered World.logger level) l') (hd : l.Distinct)
    (hs : l.save? World.logger = some s) : Same l (l'.restored s) := by
  have hlogger := save?_logger hs
  have hsaved := h.levels.trans (l.save?_lowered level)
  rw [hs, Option.map_some] at hsaved
  refine ⟨?_, ?_⟩
  · rw [hs]
    exact save?_restored hlogger (hd s hs) hsaved (by simp [Saved.lowered, Function.comp_def])
  · rw [inherited_restored _ hlogger, h.inherited, inherited_lowered]

/-- The levels that decide what gets through: that of the solvers' logger, and those of its handlers. -/
def thresholds (l : Log μ) : Option (Level × List (Nat × Level)) :=
  (l.find? World.logger).map fun g => (l.effective g, g.handlers.map fun h => (h.id, h.level))

theorem thresholds_eq (l : Log μ) :
    l.thresholds = (l.save? World.logger).map fun s => (s.effective l, s.handlers) := by
  rw [thresholds, save?]
  cases h : l.find? World.logger with
  | none => rfl
  | some g => simp [effective_eq h, Saved.effective]

/-- The same handlers, and no level above the one before. -/
def Covers (l' l : Log μ) : Prop :=
  ∀ t ∈ l.thresholds, ∃ t' ∈ l'.thresholds, t'.1.value ≤ t.1.value ∧
    List.Forall₂ (fun a b => a.1 = b.1 ∧ a.2.value ≤ b.2.value) t'.2 t.2

theorem Same.covers (h : Same l l') : Covers l' l := by
  have hthresholds : l'.thresholds = l.thresholds := by
    simp only [thresholds_eq, h.levels, Saved.effective, h.inherited]
  rw [Covers, hthresholds]
  exact fun t ht => ⟨t, ht, le_rfl, List.forall₂_same.mpr fun _ _ => ⟨Eq.refl _, le_rfl⟩⟩

theorem Covers.trans (h : Covers k l') (h' : Covers l' l) : Covers k l := by
  intro t ht
  obtain ⟨t', ht', hlevel', hhandlers'⟩ := h' t ht
  obtain ⟨t'', ht'', hlevel, hhandlers⟩ := h t' ht'
  refine ⟨t'', ht'', hlevel.trans hlevel', ?_⟩
  rw [List.forall₂_iff_get] at hhandlers hhandlers' ⊢
  refine ⟨hhandlers.1.trans hhandlers'.1, fun i hi hi' => ?_⟩
  obtain ⟨hid, hle⟩ := hhandlers.2 i hi (hhandlers.1 ▸ hi)
  obtain ⟨hid', hle'⟩ := hhandlers'.2 i (hhandlers.1 ▸ hi) hi'
  exact ⟨hid.trans hid', hle.trans hle'⟩

theorem covers_lowered (l : Log μ) (h : level.value ≠ 0) : (l.lowered World.logger level).Covers l := by
  intro t ht
  rw [thresholds_eq] at ht
  obtain ⟨s, hs, rfl⟩ := Option.map_eq_some_iff.mp ht
  have hlower (a : Level) : (if a.above level then level else a).value ≤ a.value := by
    split
    · rename_i habove
      exact (of_decide_eq_true habove).le
    · exact le_rfl
  refine ⟨((s.lowered l level).effective (l.lowered World.logger level), (s.lowered l level).handlers), ?_, ?_, ?_⟩
  · rw [thresholds_eq, save?_lowered, hs]
    rfl
  · rw [effective_lowered s l h]
    exact hlower _
  · rw [Saved.lowered, List.forall₂_map_left_iff]
    exact List.forall₂_same.mpr fun e _ => ⟨rfl, hlower e.2⟩

/-- The logs that the operations on a log lead to. -/
inductive Made : Log μ → Prop
  | first : Made World.firstLog
  | got {l : Log μ} (h : Made l) (sink : Sink) (name : Option String) : Made (l.getAt sink name).2
  | set {l : Log μ} (h : Made l) (level : Level) : Made (l.setLevel level)
  | configured {l : Log μ} (h : Made l) (level : Level) (format : String) (sink : Sink) :
      Made (l.configure level format sink)
  | emitted {l : Log μ} (h : Made l) (name : String) (level : Level) (message : μ) : Made (l.emit name level message)
  | lowered {l : Log μ} (h : Made l) (name : String) (level : Level) : Made (l.lowered name level)
  | restored {l : Log μ} (h : Made l) (s : Saved) : Made (l.restored s)

theorem loggers_emit (l : Log μ) (name : String) (level : Level) (message : μ) :
    (l.emit name level message).loggers = l.loggers := by
  rw [emit]
  split
  · rfl
  · split <;> rfl

theorem nodup_rehandle (level : Level) (format : String) (sink : Sink) (loggers : List Logger) (fresh : Nat) :
    ∀ g ∈ (rehandle level format sink loggers fresh).1, (g.handlers.map Handler.id).Nodup := by
  induction loggers generalizing fresh with
  | nil => nofun
  | cons g rest ih =>
      rw [rehandle, List.forall_mem_cons]
      exact ⟨List.nodup_singleton _, ih _⟩

theorem map_id_handlers {u : Handler → Handler} (hu : ∀ h, (u h).id = h.id) (handlers : List Handler) :
    (handlers.map u).map Handler.id = handlers.map Handler.id := by
  rw [List.map_map]
  exact List.map_congr_left fun h _ => hu h

theorem Made.nodup (h : Made l) : ∀ g ∈ l.loggers, (g.handlers.map Handler.id).Nodup := by
  induction h with
  | first =>
      rw [World.firstLog, getAt]
      simp [find?]
  | @got l _ sink name ih =>
      rw [getAt]
      split
      · exact ih
      · rw [List.forall_mem_append, List.forall_mem_singleton]
        exact ⟨ih, List.nodup_singleton _⟩
  | set _ level ih =>
      rw [setLevel, List.forall_mem_map]
      intro g hg
      simpa [Function.comp_def] using ih g hg
  | configured _ level format sink => exact nodup_rehandle _ _ _ _ _
  | emitted _ name level message ih => rwa [loggers_emit]
  | @lowered l _ name level ih =>
      rw [Log.lowered]
      split
      · exact ih
      · rename_i g hfind
        rw [List.forall_mem_map]
        intro k hk
        split
        · rw [map_id_handlers fun h => by split <;> rfl]
          exact ih g (List.mem_of_find?_eq_some hfind)
        · exact ih k hk
  | restored _ s ih =>
      rw [Log.restored, List.forall_mem_map]
      intro g hg
      split
      · rw [map_id_handlers fun h => by split <;> rfl]
        exact ih g hg
      · exact ih g hg

theorem Made.distinct (h : Made l) : l.Distinct := by
  intro s hs
  obtain ⟨g, hg, rfl⟩ := Option.map_eq_some_iff.mp hs
  simpa [Function.comp_def] using h.nodup g (List.mem_of_find?_eq_some hg)

end BoxBfgs.Log
