import BoxBfgs.Checked.Problem
import BoxBfgs.Described.Bounds
import BoxBfgs.Problem.Separable
import BoxBfgs.Solver.Basic

namespace BoxBfgs.Described

/-! Functions that tables describe. Value and gradient come together, also where only one of them is wanted. -/

abbrev Formula := Tensor Float → Reply Float (Float × Tensor Float)

def needed (v : Value) (name : String) : Except (Fault Float) Value := Fault.orElse (.client "KeyError") (v.at? name)

def computed {β : Type} : Except Misread β → Reply Float β
  | .ok b => .answer b
  | .error .unbounded => .arithmetic .overflow Unreadable.large.message
  | .error why => .fault (.misread why)

def operand (v : Value) : Reply Float Float := computed v.operand

def operands : Value → Reply Float (List Float)
  | .list items => items.mapM operand
  | _ => .fault (.misread .unfit)

def divided {β : Type} : Except Arithmetic β → Reply Float β
  | .ok b => .answer b
  | .error why => .arithmetic why "float division by zero"

def firstOf (n : Nat) : Value → Reply Float (List Value)
  | .list items => .answer (items.take n)
  | _ => .fault (.misread .unfit)

def byCoordinate (f : List Float → Reply Float (Float × List Float)) : Formula := fun x =>
  match x.shape with
  | [_] => (f x.entries).map fun (a, g) => (a, .ofList g)
  | 0 :: _ => (f []).map fun (a, g) => (a, .ofList g)
  | _ => .fault (.misread .unfit)

/-- A function by its name. The matrix and the vector of a quadratic one are looked at before it is called. -/
def Formula.named (v : Value) : Except (Fault Float) Formula := do
  let listed (name : String) (x : List Float) : Reply Float (List Value) :=
    (Reply.ofExcept (needed v name)).bind (firstOf x.length)
  match (v.field "fn").asText with
  | "sphere" => return fun x => .ofExcept (Problem.sphereOf x)
  | "rosenbrock" => return fun x => .ofExcept (Problem.rosenbrockOf x)
  | "quadratic" =>
      let f ← Problem.quadraticOf (← Tensor.ofValue (← needed v "q")) (← Tensor.ofValue (← needed v "b"))
      return fun x => .ofExcept (f x)
  | "poly" => return byCoordinate fun x => do
      let coefficients ← (← listed "coef" x).mapM operands
      .ofExcept (Fault.inRange (Problem.polynomials? coefficients x))
  | "abs" => return byCoordinate fun x => do
      let weights ← (← listed "w" x).mapM operand
      let centre ← (← listed "a" x).mapM operand
      .ofExcept (Fault.inRange (Problem.distances? weights centre x))
  | "hyper" => return byCoordinate fun x => .answer (Problem.hyperbolas x)
  | _ => return byCoordinate fun x => do return (← divided (Problem.reciprocals x), ← divided (Problem.reciprocalSlopes x))

def adjust {β : Type} (v : Value) (name : String) (f : Value → β → Reply Float β) (b : β) : Reply Float β :=
  match v.at? name with
  | some w => f w b
  | none => .answer b

/-- The point a function is evaluated at when it is moved. -/
def shifted (s : Value) (x : Tensor Float) : Reply Float (Tensor Float) :=
  (computed ((Tensor.read s).mapError Unreadable.misread)).bind fun s => .ofExcept (x.sub s)

/-- A function moved, multiplied, raised and with its gradient multiplied, in this order. -/
def Formula.ofTable (v : Value) : Except (Fault Float) Formula :=
  (named v).map fun f x => do
    let r ← f (← adjust v "shift" shifted x)
    let r ← adjust v "scale" (fun s (a, g) => (operand s).map fun s => (a * s, g.scale s)) r
    let r ← adjust v "offset" (fun s (a, g) => (operand s).map fun s => (a + s, g)) r
    adjust v "grad_scale"
      (fun s (a, g) => do return (a, ← Reply.ofExcept (g.zipWith (· * ·) (← computed (Tensor.ofOperands s))))) r

/-! A client that offers such a function. -/

/-- What a client notes down: its calls by a letter each, the points of those for a value, the steps along a line, and
the iterates it was shown. -/
structure Client where
  count : Nat := 0
  letters : List Char := []
  trials : List (Tensor Float) := []
  steps : List Float := []
  records : List (Record Float) := []

abbrev Here := World Float Client

abbrev Running := Solver Float Client

structure Script where
  formula : Formula
  at? : Option Float
  mode : String
  text : String
  onward : Bool

def Script.ofTable (v : Value) : Except (Fault Float) Script :=
  let fail := v.field "fail"
  (Formula.ofTable v).map fun formula =>
    { formula, at? := (fail.field "at").comparable.toOption, mode := (fail.field "mode").asText,
      text := (fail.at? "text").elim "" Value.shown, onward := (fail.field "onward").holds }

def fresh : Running := { id := 1000, options := Options.standard }

def start : Here := { session := {}, client := {} }

def minimizeInside (s : Running) (x : Tensor Float) (w : Here) : Except (Fault Float) Unit × Here :=
  let sphere : Offer Float Here := .function fun x w => (.ofExcept (Problem.sphereOf x), w)
  let (r, _, w) := s.minimize sphere (.array x.shape x.entries) (.ok s.options) w
  (r.map fun _ => (), w)

def putLast (a : Float) (g : Tensor Float) : Reply Float (Tensor Float) :=
  match g.shape with
  | (n + 1) :: inner => .answer ⟨g.shape, g.entries.take (n * Tensor.room inner) ++ List.replicate (Tensor.room inner) a⟩
  | _ => .fault .outOfRange

namespace Script

variable (s : Script)

def fails (count : Nat) : Bool :=
  match s.at? with
  | some k => if s.onward then k ≤ .ofNat count else k == .ofNat count
  | none => false

def value (running : Running) : Callable Float Here Float := fun x w =>
  let c := w.client
  let w : Here :=
    { w with client := { c with count := c.count + 1, letters := c.letters ++ ['f'], trials := c.trials ++ [x] } }
  let plain := (s.formula x).map Prod.fst
  let inside (solver : Running) : Reply Float Float × Here :=
    match minimizeInside solver x w with
    | (.ok (), w) => (plain, w)
    | (.error why, w) => (.fault why, w)
  if s.fails (c.count + 1) then
    match s.mode with
    | "objective_error" => (.abort s.text, w)
    | "zero_division" => (.arithmetic .divisionByZero "division by zero", w)
    | "overflow" => (.arithmetic .overflow "math range error", w)
    | "floating_point" => (.arithmetic .underflow "underflow encountered", w)
    | "key_error" => (.fault (.client "KeyError"), w)
    | "reenter" => inside running
    | "nested" => inside fresh
    | "nan_f" => (.answer (0.0 / 0.0), w)
    | "inf_f" => (.answer (1.0 / 0.0), w)
    | "neg_inf_f" => (.answer (-1.0 / 0.0), w)
    | _ => (plain, w)
  else (plain, w)

def gradient : Callable Float Here (Tensor Float) := fun x w =>
  let c := w.client
  let w : Here := { w with client := { c with letters := c.letters ++ ['g'] } }
  let r := (s.formula x).map Prod.snd
  if s.fails c.count then
    match s.mode with
    | "nan_g" => (r.bind (putLast (0.0 / 0.0)), w)
    | "inf_g" => (r.bind (putLast (1.0 / 0.0)), w)
    | "short_g" => (r.map fun (g : Tensor Float) => g.front (g.rows.length - 1), w)
    | "long_g" => (r.map fun (g : Tensor Float) => .ofList (g.entries ++ [0.0]), w)
    | "row_g" => (r.map fun (g : Tensor Float) => ⟨[1, g.entries.length], g.entries⟩, w)
    | _ => (r, w)
  else (r, w)

def offer (shape : String) (running : Running) : Offer Float Here :=
  let value := s.value running
  let both : Callable Float Here (Float × Tensor Float) := (Objective.split value s.gradient).call
  match shape with
  | "split" => .pair (some value) (some s.gradient)
  | "methods" => .object "Methods" (some value) (some s.gradient)
  | "objective" => .objective "Custom" both
  | "only_evaluate" => .object "Half" (some value) none
  | "number" => .other "float"
  | "none" => .other "NoneType"
  | "string" => .other "str"
  | "list_pair" => .other "list"
  | "triple" => .other "tuple"
  | "half_pair" => .pair (some value) none
  | _ => .function both

end Script

def sortOf {α σ : Type} : Objective α σ → String
  | .combined _ => "CombinedObjective"
  | .split _ _ => "SplitObjective"
  | .custom name _ => name

end BoxBfgs.Described
