import BoxBfgs.Proofs.Log

namespace BoxBfgs

namespace Level

/-- The usual names of levels. -/
def names : List (String × Int) :=
  [("NOTSET", 0), ("DEBUG", 10), ("INFO", 20), ("WARN", 30), ("WARNING", 30), ("ERROR", 40), ("FATAL", 50),
    ("CRITICAL", 50)]

/-- The level that an integer or a usual name in any case stands for. -/
def usual? : Value → Option Level
  | .whole i => some (.number i)
  | .text s => (names.find? fun e => e.1 == Text.upper s).map fun e => .number e.2
  | _ => none

theorem ofName_of_mem {e : String × Int} (h : e ∈ names) : Named.ofName e.1 = .level (.number e.2) := by
  simp only [names, List.mem_cons, List.not_mem_nil, or_false] at h
  rcases h with rfl | rfl | rfl | rfl | rfl | rfl | rfl | rfl <;> rfl

theorem read_of_usual {α : Type} {v : Value} {level : Level} (h : usual? v = some level) :
    (Named.read v : Except (Fault α) Named) = .ok (.level level) := by
  cases v with
  | whole i =>
      cases h
      rfl
  | text s =>
      obtain ⟨e, he, rfl⟩ := Option.map_eq_some_iff.mp h
      have hname : e.1 = Text.upper s := by simpa using List.find?_some he
      rw [Named.read, ← hname, ofName_of_mem (List.mem_of_find?_eq_some he)]
  | null | flag b | real a | list items | table fields | bounds b => cases h

end Level

/-- A logger with one handler, of its own level, that hands nothing on. -/
structure Logger.Even (g : Logger) (level : Level) : Prop where
  own : g.level = level
  keeps : g.propagates = false
  single : ∃ h, g.handlers = [h] ∧ h.level = level

namespace Log

inductive Call where
  | get (name : Option String)
  | setLevel (level : Value)
  | configure (level format : Value) (sink : Sink)

namespace Call

/-- Whether the level, where one is given, is an integer or a usual name. -/
def Usual : Call → Prop
  | .get _ => True
  | .setLevel level => (Level.usual? level).isSome
  | .configure level _ _ => (Level.usual? level).isSome

/-- The level that a call sets. A format that is none keeps it from doing so. -/
def level? : Call → Option Level
  | .get _ => none
  | .setLevel level => Level.usual? level
  | .configure level format _ =>
      match (readFormat format : Except (Fault Float) String) with
      | .ok _ => Level.usual? level
      | .error _ => none

end Call

/-- The level that was set last, or the one that counts before any is set. -/
def lastLevel (calls : List Call) : Level := (calls.filterMap Call.level?).getLastD 30

variable {μ : Type} {l : Log μ} {c : Call} {level : Level} {sink : Sink} {name name' : Option String} {s : String}

def perform (l : Log μ) : Call → Except (Fault Float) (Log μ)
  | .get name => .ok (l.get name).2
  | .setLevel level => l.readLevel level
  | .configure level format sink => l.readConfigured level format sink

/-- The log after a call; one that fails leaves it as it was. -/
def after (l : Log μ) (c : Call) : Log μ := (l.perform c).toOption.getD l

theorem fullName_below (s : String) : fullName (some (packageName ++ "." ++ s)) = packageName ++ "." ++ s := by
  have hstarts : (packageName ++ "." ++ s).startsWith (packageName ++ ".") = true :=
    String.startsWith_string_iff.mpr ⟨s.toList, String.toList_append.symm⟩
  rw [fullName, hstarts, Bool.or_true, if_pos rfl]

theorem fullName_of_not_below (hs : s ≠ packageName) (h : s.startsWith (packageName ++ ".") = false) :
    fullName (some s) = packageName ++ "." ++ s := by
  simp [fullName, hs, h]

theorem find?_getAt (l : Log μ) (sink : Sink) (name : Option String) :
    (l.getAt sink name).2.find? (fullName name) = some (l.getAt sink name).1 := by
  rw [getAt]
  cases h : l.find? (fullName name) with
  | some g => exact h
  | none =>
      rw [find?] at h
      simp [find?, List.find?_append, h]

/-- Asking again under a name that comes to the same gives the same logger and changes nothing. -/
theorem getAt_getAt (h : fullName name' = fullName name) :
    (l.getAt sink name).2.getAt sink name' = l.getAt sink name := by
  rw [getAt, h, find?_getAt]

/-- What holds of a log whose loggers got all their levels by calls. -/
structure Uniform (l : Log μ) (level : Level) : Prop where
  next : l.level = level
  distinct : (l.loggers.map Logger.name).Nodup
  even : ∀ g ∈ l.loggers, g.Even level

theorem Uniform.getAt (h : Uniform l level) (sink : Sink) (name : Option String) :
    Uniform (l.getAt sink name).2 level := by
  rw [Log.getAt]
  cases hfind : l.find? (fullName name) with
  | some g => exact h
  | none =>
      refine ⟨h.next, ?_, ?_⟩
      · rw [List.map_append, List.nodup_append]
        refine ⟨h.distinct, List.nodup_singleton _, ?_⟩
        rintro a ha b hb rfl
        obtain ⟨g, hg, rfl⟩ := List.mem_map.mp ha
        exact List.find?_eq_none.mp hfind g hg (by simpa using hb)
      · rw [List.forall_mem_append, List.forall_mem_singleton]
        exact ⟨h.even, h.next, rfl, _, rfl, h.next⟩

theorem Uniform.setLevel {level' : Level} (h : Uniform l level) : Uniform (l.setLevel level') level' := by
  refine ⟨rfl, ?_, ?_⟩
  · rw [Log.setLevel, List.map_map]
    exact h.distinct
  · rw [Log.setLevel, List.forall_mem_map]
    intro g hg
    obtain ⟨e, he, -⟩ := (h.even g hg).single
    exact ⟨rfl, (h.even g hg).keeps, { e with level := level' }, by rw [he, List.map_singleton], rfl⟩

theorem names_rehandle (level : Level) (format : String) (sink : Sink) (loggers : List Logger) (fresh : Nat) :
    (rehandle level format sink loggers fresh).1.map Logger.name = loggers.map Logger.name := by
  induction loggers generalizing fresh with
  | nil => rfl
  | cons g rest ih => rw [rehandle, List.map_cons, List.map_cons, ih]

theorem even_rehandle (level : Level) (format : String) (sink : Sink) {loggers : List Logger}
    (h : ∀ g ∈ loggers, g.propagates = false) (fresh : Nat) :
    ∀ g ∈ (rehandle level format sink loggers fresh).1, g.Even level := by
  induction loggers generalizing fresh with
  | nil => nofun
  | cons g rest ih =>
      rw [List.forall_mem_cons] at h
      rw [rehandle, List.forall_mem_cons]
      exact ⟨⟨rfl, h.1, _, rfl, rfl⟩, ih h.2 _⟩

theorem Uniform.configure {level' : Level} (h : Uniform l level) (format : String) (sink : Sink) :
    Uniform (l.configure level' format sink) level' where
  next := rfl
  distinct := by
    rw [Log.configure, names_rehandle]
    exact h.distinct
  even := even_rehandle _ _ _ (fun g hg => (h.even g hg).keeps) _

theorem firstLog_uniform : Uniform (World.firstLog : Log μ) 30 :=
  Uniform.getAt (l := {}) ⟨rfl, List.nodup_nil, nofun⟩ _ _

/-- A call keeps the loggers together, at the level it sets if it sets one. -/
theorem Uniform.after (h : Uniform l level) (hc : c.Usual) : Uniform (l.after c) (c.level?.getD level) := by
  cases c with
  | get name => exact h.getAt _ _
  | setLevel v =>
      obtain ⟨level', hv⟩ := Option.isSome_iff_exists.mp hc
      have hperform : l.perform (.setLevel v) = .ok (l.setLevel level') := by
        rw [perform, readLevel, Level.read_of_usual hv]
        rfl
      rw [Log.after, hperform, Call.level?, hv]
      exact h.setLevel
  | configure v format sink =>
      obtain ⟨level', hv⟩ := Option.isSome_iff_exists.mp hc
      rw [Log.after, perform, readConfigured, Level.read_of_usual hv, Call.level?]
      cases hformat : (readFormat format : Except (Fault Float) String) with
      | error why => exact h
      | ok format =>
          rw [hv]
          exact h.configure _ _

theorem lastLevel_concat (calls : List Call) (c : Call) :
    lastLevel (calls ++ [c]) = c.level?.getD (lastLevel calls) := by
  rw [lastLevel, lastLevel, List.filterMap_append]
  cases h : c.level? with
  | none => simp [h]
  | some level => simp [h]

/-- The log after some calls, the first of which finds the logger of the solvers alone. -/
def afterAll (calls : List Call) : Log μ := calls.foldl after World.firstLog

theorem afterAll_uniform {calls : List Call} (h : ∀ c ∈ calls, c.Usual) :
    Uniform (afterAll calls : Log μ) (lastLevel calls) := by
  induction calls using List.reverseRecOn with
  | nil => exact firstLog_uniform
  | append_singleton calls c ih =>
      rw [List.forall_mem_append, List.forall_mem_singleton] at h
      rw [afterAll, List.foldl_concat, lastLevel_concat]
      exact (ih h.1).after h.2

/-- After any calls all loggers have the level that was set last, whether they were there by then or not, and so has the one
handler that each of them has. With or without the package before it, a name means the same logger. -/
theorem calls_uniform {calls : List Call} (h : ∀ c ∈ calls, c.Usual) :
    (∀ g ∈ (afterAll calls : Log μ).loggers, g.level = lastLevel calls ∧ g.propagates = false ∧
        ∃ e, g.handlers = [e] ∧ e.level = lastLevel calls) ∧
      ((afterAll calls : Log μ).loggers.map Logger.name).Nodup ∧
      ∀ s, s ≠ packageName → s.startsWith (packageName ++ ".") = false →
        ((afterAll calls : Log μ).get (some s)).1.name = packageName ++ "." ++ s ∧
          (afterAll calls : Log μ).get (some (packageName ++ "." ++ s)) = (afterAll calls : Log μ).get (some s) ∧
          ((afterAll calls : Log μ).get (some s)).2.get (some (packageName ++ "." ++ s)) =
            (afterAll calls : Log μ).get (some s) := by
  have hl := afterAll_uniform (μ := μ) h
  refine ⟨fun g hg => ?_, hl.distinct, fun s hs hbelow => ?_⟩
  · obtain ⟨hown, hkeeps, hsingle⟩ := hl.even g hg
    exact ⟨hown, hkeeps, hsingle⟩
  · have hname := fullName_of_not_below hs hbelow
    have hsame := (fullName_below s).trans hname.symm
    refine ⟨?_, ?_, getAt_getAt hsame⟩
    · rw [← hname]
      exact name_of_find? (find?_getAt _ _ _)
    · rw [get, get, getAt, getAt, hsame]

/-- One logger is made between two levels, and another one after a level that a refused format kept from being set. -/
def mixedCalls : List Call :=
  [.setLevel (.text "debug"), .get (some "search"), .configure (.text "Error") (.text "%(message)s") .stream,
    .configure (.whole 10) (.text "message") .errors, .get (some "lbfgsb.trace")]

theorem calls_uniform_mixed : (∀ c ∈ mixedCalls, c.Usual) ∧ lastLevel mixedCalls = 40 ∧
    (afterAll mixedCalls : Log Entry).loggers.map Logger.name = ["lbfgsb.solver", "lbfgsb.search", "lbfgsb.trace"] ∧
    (∀ g ∈ (afterAll mixedCalls : Log Entry).loggers, g.level = 40 ∧ g.propagates = false ∧
      ∃ e, g.handlers = [e] ∧ e.level = 40) ∧
    "search" ≠ packageName ∧ "search".startsWith (packageName ++ ".") = false ∧
    (afterAll mixedCalls : Log Entry).get (some "lbfgsb.search") = (afterAll mixedCalls : Log Entry).get (some "search") := by
  have husual : ∀ c ∈ mixedCalls, c.Usual := by
    simp only [mixedCalls, List.forall_mem_cons, Call.Usual]
    exact ⟨by decide +kernel, trivial, by decide +kernel, rfl, trivial, nofun⟩
  have hlast : lastLevel mixedCalls = 40 := by decide +kernel
  have hne : "search" ≠ packageName := by decide
  have hbelow : "search".startsWith (packageName ++ ".") = false := by decide +kernel
  obtain ⟨hlevels, -, hsame⟩ := calls_uniform (μ := Entry) husual
  rw [hlast] at hlevels
  exact ⟨husual, hlast, by decide +kernel, hlevels, hne, hbelow, (hsame _ hne hbelow).2.1⟩

end Log

end BoxBfgs
