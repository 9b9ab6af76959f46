import BoxBfgs.Bounds.Making
import BoxBfgs.Solver.Run
import BoxBfgs.Store

namespace BoxBfgs

/-- A solver with its options, what is left of its last run, and a callback for the iterates. -/
structure Solver (α κ : Type) where
  id : Nat
  options : Options α
  iterations : Nat := 0
  evaluations : Nat := 0
  history : List (Record α) := []
  memory : Option ((n : Nat) × Memory α n) := none
  callback : Option (Callback α κ) := none

inductive Start (α : Type) where
  | array (shape : List Nat) (entries : List α)
  | unreadable (why : Unreadable)

inductive Answer (α : Type) where
  /-- Refused before anything was computed, with the numbers of the start if they could be read. -/
  | rejected (echo : List α) (why : Invalid α)
  | evaluated (x : List α) (f : α) (g : List α) (status : Status α)
  | unevaluated (x : List α) (status : Status α)

namespace Answer

variable {α : Type}

def status : Answer α → Status α
  | .rejected _ why => { reason := .invalid why, iterations := 0, evaluations := 0 }
  | .evaluated _ _ _ s | .unevaluated _ s => s

def x : Answer α → List α
  | .rejected echo _ => echo
  | .evaluated x _ _ _ | .unevaluated x _ => x

/-- The value at the point, which is no number where nothing was evaluated. -/
def f : Answer Float → Float
  | .evaluated _ f _ _ => f
  | .rejected _ _ | .unevaluated _ _ => 0.0 / 0.0

def g : Answer Float → List Float
  | .rejected _ _ => []
  | .evaluated _ _ g _ => g
  | .unevaluated x _ => x.map fun _ => 0.0 / 0.0

end Answer

namespace Start

def ofValue (v : Value) : Start Float :=
  match Tensor.read v with
  | .ok t => .array t.shape t.entries
  | .error why => .unreadable why

end Start

namespace Solver

variable {α κ : Type} [Scalar α]

structure Problem (α σ : Type) where
  n : Nat
  objective : Objective α σ
  options : Options α
  bounds : Bounds α n
  start : Vector α n

def refuse {β : Type} (why : StartDefect) : Except (Fault α) β := .error (.invalid (.start why))

def place (objective : Objective α (World α κ)) (options : Options α) (start : Start α) :
    Except (Fault α) (Problem α (World α κ)) :=
  match start with
  | .unreadable .large => .error (.misread .unbounded)
  | .unreadable why => refuse (.notNumeric why)
  | .array shape entries =>
      if shape.length ≠ 1 || entries.isEmpty then refuse (.shape shape)
      else if !entries.all Scalar.isFinite then refuse .nonFinite
      else
        let n := entries.length
        let x : Vector α n := Vec.ofList entries
        match options.bounds with
        | none => .ok { n, objective, options, bounds := .free n, start := (Bounds.free n).project x }
        | some ⟨k, b⟩ =>
            if h : k = n then
              let b : Bounds α n := h ▸ b
              .ok { n, objective, options, bounds := b, start := b.project x }
            else refuse (.dimension k n)

/-- Everything about a call that can be wrong before the run, in the order in which it is looked at. -/
def prepare (options : Except (Fault α) (Options α)) (offer : Offer α (World α κ)) (start : Start α) :
    Except (Fault α) (Problem α (World α κ)) :=
  options.bind fun o => offer.adapt.bind fun f => place f o start

def reject (start : Start α) (why : Invalid α) (w : World α κ) : Except (Fault α) (Answer α) × World α κ :=
  match start with
  | .unreadable .large => (.error (.misread .unbounded), w)
  | .unreadable _ => (.ok (.rejected [] why), w.mapLog fun l => l.emit World.logger 10 (.rejected why))
  | .array _ entries => (.ok (.rejected entries why), w.mapLog fun l => l.emit World.logger 10 (.rejected why))

/-- The point that is returned: the last iterate if the run converged, else the best point evaluated. -/
def chosen {n : Nat} (current : Option (Point α n)) (reason : Reason α) (e : Evaluator (Vector α n) α n) :
    Option (Point α n) :=
  if reason.code.converged then current else e.best

def answer {n : Nat} (start : Vector α n) (point : Option (Point α n)) (status : Status α) : Answer α :=
  match point with
  | some p => .evaluated p.x.toList p.f p.g.toList status
  | none => .unevaluated start.toList status

/-- Runs a problem. A run that a fault ends leaves its history behind, but no counts. -/
def solve (s : Solver α κ) (p : Problem α (World α κ)) (w : World α κ) :
    Except (Fault α) (Answer α) × Solver α κ × World α κ :=
  let setup : Setup α κ p.n :=
    { id := s.id, objective := p.objective, callback := s.callback, options := p.options, bounds := p.bounds,
      start := p.start }
  let (w, saved) := w.enter s.id p.options.verbosity
  let st := Run.run setup (.renew s.memory p.n p.options.depth) w
  let after : Solver α κ :=
    { s with iterations := 0, evaluations := 0, history := st.progress.history,
             memory := some ⟨p.n, st.phase.memory⟩ }
  match st.phase with
  | .ended _ current reason =>
      let count := st.progress.evaluator.count
      let status : Status α := { reason, iterations := st.progress.iterations, evaluations := count }
      let point := chosen current reason st.progress.evaluator
      let w := st.world.emit s.id .summary 20 (.finished status (point.map (·.f)))
      (.ok (answer p.start point status), { after with iterations := st.progress.iterations, evaluations := count },
        w.leave s.id saved)
  | .escaped _ why => (.error why, after, st.world.leave s.id saved)
  | _ => (.error .unfinished, after, st.world.leave s.id saved)

/-- Minimises what is offered from a start, with options for this call. A solver that is running refuses. -/
def minimize (s : Solver α κ) (offer : Offer α (World α κ)) (start : Start α) (options : Except (Fault α) (Options α))
    (w : World α κ) : Except (Fault α) (Answer α) × Solver α κ × World α κ :=
  if w.isRunning s.id then (.error .reentered, s, w)
  else
    match prepare options offer start with
    | .ok p => s.solve p w
    | .error (.invalid why) =>
        let (r, w) := reject start why w
        (r, s, w)
    | .error why => (.error why, s, w)

end Solver

/-! Changing the options of a solver. -/

namespace Solver

variable {κ : Type}

def change (s : Solver Float κ) (given : List (String × Value)) : Except (Fault Float) (Solver Float κ) :=
  (s.options.update given).map fun options => { s with options }

def setNumber (s : Solver Float κ) (name : String) (v : Value) : Except (Fault Float) (Solver Float κ) :=
  (Fault.liftMisread v.number).bind fun a => s.change [(name, .real a)]

def setWhole (s : Solver Float κ) (name : String) (v : Value) : Except (Fault Float) (Solver Float κ) :=
  (Fault.liftMisread v.integer).bind fun i => s.change [(name, .whole i)]

def setPrinting (s : Solver Float κ) (v : Value) : Except (Fault Float) (Solver Float κ) :=
  (Verbosity.read v).bind fun verbosity => .ok { s with options := { s.options with verbosity } }

/-- Sets the bounds to ready ones, to those that limits and tags make up, or to none where nothing is given. -/
def setBounds (s : Solver Float κ) (lower upper tags : Value) : Except (Fault Float) (Solver Float κ) :=
  match lower, upper, tags with
  | .bounds b, _, _ => s.change [("bounds", .bounds b)]
  | .null, .null, .null => s.change [("bounds", .null)]
  | _, _, _ => (Bounds.read lower upper tags .null).bind fun b => s.change [("bounds", .bounds b.2)]

end Solver

end BoxBfgs
