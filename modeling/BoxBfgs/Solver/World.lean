import BoxBfgs.Log
import BoxBfgs.Solver.Report
import BoxBfgs.Verbosity

namespace BoxBfgs

/-- What all solvers share: the log, the switch of the checks, and the solvers that are running with the verbosity
of each. -/
structure Session (α : Type) where
  log : Log (Event α) := {}
  debug : Bool := false
  running : List (Nat × Verbosity) := []

structure World (α κ : Type) where
  session : Session α
  client : κ

namespace World

variable {α κ : Type} (w : World α κ)

def logger : String := Log.packageName ++ ".solver"

/-- The log before anybody looked at it, in which the logger of the solvers stands already. -/
def firstLog {μ : Type} : Log μ := (({} : Log μ).getAt .unread (some logger)).2

def mapLog (f : Log (Event α) → Log (Event α)) : World α κ :=
  { w with session := { w.session with log := f w.session.log } }

def isRunning (id : Nat) : Bool := w.session.running.any fun r => r.1 == id

/-- The verbosity of a running solver; a solver that does not run is silent. -/
def verbosity (id : Nat) : Verbosity := ((w.session.running.find? fun r => r.1 == id).map Prod.snd).getD .silent

def emit (id : Nat) (needed : Verbosity) (level : Level) (e : Event α) : World α κ :=
  if needed.rank ≤ (w.verbosity id).rank then w.mapLog fun l => l.emit logger level e else w

/-- Marks a solver as running and lets the records of its verbosity through. The levels from before come with it. -/
def enter (id : Nat) (v : Verbosity) : World α κ × Option Log.Saved :=
  let w := { w with session := { w.session with running := (id, v) :: w.session.running } }
  match v.level? with
  | none => (w, none)
  | some level => (w.mapLog fun l => l.lowered logger (.number level), w.session.log.save? logger)

def leave (id : Nat) (saved : Option Log.Saved) : World α κ :=
  let w := match saved with
    | none => w
    | some s => w.mapLog fun l => l.restored s
  { w with session := { w.session with running := w.session.running.filter fun r => r.1 != id } }

end World

end BoxBfgs
