import BoxBfgs.Search.Line
import BoxBfgs.Verbosity

namespace BoxBfgs

structure Options (α : Type) where
  depth : Nat
  /-- The relative decrease that is still worth an iteration, in gaps of the doubles; zero for any. -/
  fTolerance : α
  gTolerance : α
  /-- The same as it is told: an integer that is no double is told as the nearest one. -/
  gTold : α
  iterations : Cap
  evaluations : Cap
  bounds : Option ((n : Nat) × Bounds α n)
  verbosity : Verbosity
  c1 : α
  c2 : α
  width : α
  searchEvaluations : Cap
  /-- Whether the iterates are kept: what holds is as good as a flag. -/
  keepHistory : Value

namespace Options

def standard {α : Type} [Scalar α] : Options α :=
  { depth := 5, fTolerance := 10000000.0, gTolerance := 0.00001, gTold := 0.00001, iterations := .whole 100,
    evaluations := .whole 1000, bounds := none, verbosity := .silent, c1 := 0.0001, c2 := 0.9, width := 0.1,
    searchEvaluations := .whole 20, keepHistory := .flag false }

def line {α : Type} (o : Options α) : LineOptions α :=
  { c1 := o.c1, c2 := o.c2, tolerance := o.width, evaluations := o.searchEvaluations }

def names : List String :=
  ["memory_depth", "f_tolerance", "g_tolerance", "max_iterations", "max_evaluations", "bounds", "printing", "c1", "c2",
    "xtol", "max_linesearch_evaluations", "keep_history"]

def invalid {β : Type} (why : OptionDefect) : Except (Fault Float) β := .error (.invalid (.option why))

def readDepth : Value → Except (Fault Float) Nat
  | .whole i => if 1 ≤ i && i ≤ Memory.maxDepth then .ok i.toNat else invalid (.depthRange i)
  | v => invalid (.depthSort v)

def readTolerance (name : String) (v : Value) : Except (Fault Float) Float :=
  match v with
  | .text _ => .error (.misread .unfit)
  | v => (Fault.liftMisread v.number).bind fun a => if a.isNaN || a < 0.0 then invalid (.negative name v) else .ok a

/-- A cap that is not below `least`; what is no number is not below it either. -/
def readCap (least : Int) (why : OptionDefect) (v : Value) : Except (Fault Float) Cap :=
  match Cap.ofValue? v with
  | some c => if c.less least then invalid why else .ok c
  | none => Fault.unfit

/-- Two numbers in rising order between zero and one. A number is looked at only when those before it are in
order. -/
def readWolfe (v1 v2 : Value) : Except (Fault Float) (Float × Float) := do
  let refuse : Except (Fault Float) (Float × Float) := invalid (.wolfe v1 v2)
  let c1 ← Fault.liftMisread v1.comparable
  if !(0.0 < c1) then refuse
  else
    let c2 ← Fault.liftMisread v2.comparable
    if c1 < c2 && c2 < 1.0 then return (c1, c2) else refuse

def readWidth (v : Value) : Except (Fault Float) Float :=
  (Fault.liftMisread v.comparable).bind fun a => if 0.0 ≤ a && a < 1.0 then .ok a else invalid (.width v)

def readBounds : Value → Except (Fault Float) (Option ((n : Nat) × Bounds Float n))
  | .null => .ok none
  | .bounds b => .ok (some ⟨_, b⟩)
  | v => invalid (.boundsSort v.sort)

/-- The given value of an option read, or else the one it has. -/
def readOr {β : Type} (given : List (String × Value)) (name : String) (old : β)
    (read : Value → Except (Fault Float) β) : Except (Fault Float) β :=
  match Value.field? given name with
  | some v => read v
  | none => .ok old

/-- The options with new values for some of them, all of which are checked in the order of the options. -/
def with? (o : Options Float) (given : List (String × Value)) : Except (Fault Float) (Options Float) := do
  let depth ← readOr given "memory_depth" o.depth readDepth
  let fTolerance ← readOr given "f_tolerance" o.fTolerance (readTolerance "f_tolerance")
  let gTold ← readOr given "g_tolerance" o.gTold (readTolerance "g_tolerance")
  let gTolerance := match Value.field? given "g_tolerance" with
    | some (.whole i) => Value.nearestBelow i
    | some _ => gTold
    | none => o.gTolerance
  let value (name : String) : Value := (Value.field? given name).getD .null
  let iterations ← readOr given "max_iterations" o.iterations (readCap 0 (.iterations (value "max_iterations")))
  let evaluations ← readOr given "max_evaluations" o.evaluations
    (readCap 1 (.evaluations (value "max_evaluations")))
  let c (name : String) (old : Float) : Value := (Value.field? given name).getD (.real old)
  let (c1, c2) ← readWolfe (c "c1" o.c1) (c "c2" o.c2)
  let width ← readOr given "xtol" o.width readWidth
  let searchEvaluations ← readOr given "max_linesearch_evaluations" o.searchEvaluations
    (readCap 1 (.searchEvaluations (value "max_linesearch_evaluations")))
  let bounds ← readOr given "bounds" o.bounds readBounds
  let verbosity ← readOr given "printing" o.verbosity Verbosity.read
  let keepHistory := (Value.field? given "keep_history").getD o.keepHistory
  return { depth, fTolerance, gTolerance, gTold, iterations, evaluations, bounds, verbosity, c1, c2, width,
           searchEvaluations, keepHistory }

def unknownNames (given : List (String × Value)) : List String :=
  ((given.map Prod.fst).filter fun name => !names.contains name).mergeSort

/-- A name that stands for the options themselves and for none of them. -/
def ownName : String := "self"

/-- The options changed by name; names that no option has are refused together. -/
def update (o : Options Float) (given : List (String × Value)) : Except (Fault Float) (Options Float) :=
  if given.any fun f => f.1 == ownName then Fault.unfit
  else
    match unknownNames given with
    | [] => o.with? given
    | unknown => invalid (.unknown unknown)

/-- New options by name; a name that no option has does not fit. -/
def make (given : List (String × Value)) : Except (Fault Float) (Options Float) :=
  match unknownNames given with
  | [] => (standard : Options Float).with? given
  | _ => Fault.unfit

/-- Options for a new solver: ready ones, of which some are changed by name. The ready ones have a name of their own. -/
def start (ready : Options Float) (given : List (String × Value)) : Except (Fault Float) (Options Float) :=
  if given.any fun f => f.1 == "config" then Fault.unfit
  else if given.isEmpty then .ok ready
  else ready.update given

def override (o : Options Float) : Value → Except (Fault Float) (Options Float)
  | .null => .ok o
  | .table given => o.update given
  | v => .error (.invalid (.options v.sort))

def text (o : Options Float) : String :=
  s!"Lbfgsb(memory_depth={o.depth}, f_tolerance={Decimal.general 6 o.fTolerance}, " ++
    s!"g_tolerance={Decimal.general 6 o.gTold}, max_iterations={o.iterations.text})"

end Options

end BoxBfgs
