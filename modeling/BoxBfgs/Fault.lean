import BoxBfgs.Cap
import BoxBfgs.Memory
import BoxBfgs.Tensor.Reading

namespace BoxBfgs

inductive BoundsDefect (α : Type) where
  | lengths
  | unordered
  | crossed (index : Nat) (lower upper : Limit α)
  | dimensionless
  | sideLength (side : String) (length : Nat) (expected : Value)
  | tagCount (count : Nat) (expected : Value)
  | unknownTag (given : Value)
  | infinite
  | emptyBox

inductive OptionDefect where
  | unknown (names : List String)
  | depthSort (given : Value)
  | depthRange (given : Int)
  | negative (name : String) (given : Value)
  | iterations (given : Value)
  | evaluations (given : Value)
  | wolfe (c1 c2 : Value)
  | width (given : Value)
  | searchEvaluations (given : Value)
  | boundsSort (sort : String)
  | printing (given : Value)

inductive StartDefect where
  | notNumeric (why : Unreadable)
  | shape (lengths : List Nat)
  | nonFinite
  | dimension (bounds start : Nat)

inductive Invalid (α : Type) where
  | bounds (why : BoundsDefect α)
  | option (why : OptionDefect)
  | start (why : StartDefect)
  | objective (sort : String)
  | options (sort : String)
  | depth (given : Cap)
  | dimension (given : Cap)

inductive Failure where
  | raised (evaluation : Nat) (text : String)
  | gradientLength (length : Nat) (expected : Value) (evaluation : Nat)
  | nonFinite (evaluation : Nat)
  /-- Raised by an objective that nobody counted. -/
  | uncounted (text : String)

inductive SearchDefect (α : Type) where
  | wolfe
  | descent
  | stepRange (step low high : α)
deriving DecidableEq, Repr

def SearchDefect.map {α β : Type} (f : α → β) : SearchDefect α → SearchDefect β
  | .wolfe => .wolfe
  | .descent => .descent
  | .stepRange s l h => .stepRange (f s) (f l) (f h)

inductive Unmet (α : Type) where
  | search (why : SearchDefect α)
  /-- A search that was given its numbers as values. -/
  | searchGiven (why : SearchDefect Value)
  | square
  | quadratic (matrix vector : List Nat)
  | finite (name : String)
  | feasible (index : Nat) (x : Tensor α) (lower upper : Limit α)
  | room (size : Nat) (depth : Cap)
  | scaling (theta : α)
  | curvature (index : Nat)

inductive Arithmetic where
  | divisionByZero
  | overflow
  | underflow
deriving DecidableEq, Repr

/-- Everything that ends a call without an answer. -/
inductive Fault (α : Type) where
  | invalid (why : Invalid α)
  | breakdown (why : Breakdown α)
  | failure (why : Failure)
  | budget (limit : Cap)
  | reentered
  | unmet (why : Unmet α)
  | misread (why : Misread)
  /-- Lengths that do not fit each other. -/
  | mismatch
  /-- A right-hand side that is not finite. -/
  | nonFinite
  /-- A name or code that stands for nothing. -/
  | unknown
  /-- A place outside of a list. -/
  | outOfRange
  /-- More entries than there is room for. -/
  | oversized
  | arithmetic (why : Arithmetic)
  | client (label : String)
  /-- A run that went on for longer than it can. -/
  | unfinished

namespace Fault

variable {α β : Type}

def ofUnsolved : Unsolved α → Fault α
  | .breakdown why => .breakdown why
  | .nonFinite => .nonFinite

def liftUnsolved : Except (Unsolved α) β → Except (Fault α) β
  | .ok b => .ok b
  | .error why => .error (ofUnsolved why)

def liftMisread : Except Misread β → Except (Fault α) β
  | .ok b => .ok b
  | .error why => .error (.misread why)

def liftUnreadable : Except Unreadable β → Except (Fault α) β
  | .ok b => .ok b
  | .error why => .error (.misread why.misread)

def orElse (why : Fault α) : Option β → Except (Fault α) β
  | some b => .ok b
  | none => .error why

def fitting (b : Option β) : Except (Fault α) β := orElse .mismatch b

def inRange (b : Option β) : Except (Fault α) β := orElse .outOfRange b

def unfit : Except (Fault α) β := .error (.misread .unfit)

/-- From this number on entries cannot be numbered. -/
def maxEntries : Nat := 0x1000000000000000

/-- From this number on there is no room for so many entries. -/
def maxRoom : Nat := 0x10000000

def checkRoom (entries : Int) : Except (Fault α) Unit :=
  if entries < 0 || maxEntries ≤ entries then .error (.misread .malformed)
  else if maxRoom ≤ entries then .error .oversized
  else .ok ()

end Fault

end BoxBfgs
