import BoxBfgs.Decimal.Columns
import BoxBfgs.Fault

namespace BoxBfgs

def Limit.float (l : Limit Float) : Float := l.value

namespace BoundsDefect

def message : BoundsDefect Float → String
  | .lengths => "Bounds arrays must share one length."
  | .unordered => "Bounds must not contain NaN."
  | .crossed i l u =>
      s!"Lower bound exceeds upper bound at index {i}: {Decimal.text l.float} > {Decimal.text u.float}."
  | .dimensionless => "Cannot infer the dimension of scalar-only bounds; pass n."
  | .sideLength side k n => s!"{side} bounds have length {k}, expected {n.shown}."
  | .tagCount k n => s!"Bound tags have length {k}, expected {n.shown}."
  | .unknownTag v => s!"Unknown bound tag {v.quoted}."
  | .infinite => "Active bounds must be finite."
  | .emptyBox => "Bounds describe an empty box."

end BoundsDefect

namespace OptionDefect

def message : OptionDefect → String
  | .unknown names => "Unknown solver option(s): " ++ ", ".intercalate names ++ "."
  | .depthSort v => s!"memory_depth must be an integer, got {v.quoted}."
  | .depthRange d => s!"memory_depth must be in [1, {Memory.maxDepth}], got {d}."
  | .negative name v => s!"{name} must be non-negative, got {v.shown}."
  | .iterations v => s!"max_iterations must be >= 0, got {v.shown}."
  | .evaluations v => s!"max_evaluations must be >= 1, got {v.shown}."
  | .wolfe c1 c2 => s!"Require 0 < c1 < c2 < 1, got c1={c1.shown}, c2={c2.shown}."
  | .width v => s!"xtol must be in [0, 1), got {v.shown}."
  | .searchEvaluations v => s!"max_linesearch_evaluations must be >= 1, got {v.shown}."
  | .boundsSort sort => s!"bounds must be a Bounds instance, got {sort}."
  | .printing v => s!"Unknown printing level {v.quoted}."

end OptionDefect

namespace Unreadable

def message : Unreadable → String
  | .text s => s!"could not convert string to float: {Text.quote s}"
  | .sort name => s!"float() argument must be a string or a real number, not '{name}'"
  | .uneven agreed =>
      "setting an array element with a sequence. The requested array has an inhomogeneous shape after " ++
        s!"{agreed.length} dimensions. The detected shape was {Tensor.shapeText agreed} + inhomogeneous part."
  | .deep =>
      "setting an array element with a sequence. The requested array would exceed the maximum number of dimension " ++
        s!"of {Tensor.maxRank}."
  | .large => "int too large to convert to float"
  | .fractional => "cannot convert float NaN to integer"

end Unreadable

namespace StartDefect

def message : StartDefect → String
  | .notNumeric why => s!"x0 is not a numeric vector: {why.message}"
  | .shape lengths => s!"x0 must be a non-empty 1-D vector, got shape {Tensor.shapeText lengths}."
  | .nonFinite => "x0 contains NaN or infinite entries."
  | .dimension b n => s!"Bounds have dimension {b}, x0 has dimension {n}."

end StartDefect

namespace Invalid

def message : Invalid Float → String
  | .bounds why => why.message
  | .option why => why.message
  | .start why => why.message
  | .objective sort =>
      s!"Cannot use {sort} as an objective; expected a callable returning (f, g), a (function, gradient) pair or " ++
        "an Objective."
  | .options sort => s!"config must be a SolverConfig or a mapping, got {sort}."
  | .depth d => s!"Memory depth must lie in [1, {Memory.maxDepth}], got {d.text}."
  | .dimension n => s!"Dimension must be non-negative, got {n.text}."

end Invalid

namespace Singularity

def message : Singularity → String
  | .nonFinite => "Matrix to factor contains non-finite entries."
  | .single => "Singular 1x1 pivot in LDL^T factor."
  | .double => "Singular 2x2 pivot in LDL^T factor."

end Singularity

namespace Breakdown

def message : Breakdown Float → String
  | .scaling theta => s!"Non-positive scaling theta={Decimal.text theta}."
  | .matrix why => why.message

end Breakdown

namespace Failure

def message : Failure → String
  | .raised k text => s!"Objective failed at evaluation {k}: {text}"
  | .gradientLength m n k => s!"Gradient has length {m}, expected {n.shown} (evaluation {k})."
  | .nonFinite k => s!"Objective returned non-finite values at evaluation {k}."
  | .uncounted text => text

end Failure

namespace SearchDefect

def message {α : Type} (write : α → String) : SearchDefect α → String
  | .wolfe => "Require 0 < c1 < c2 < 1 for Wolfe conditions."
  | .descent => "Search direction must be a descent direction."
  | .stepRange s l h => s!"Initial step {write s} must lie in [{write l}, {write h}]."

end SearchDefect

namespace Unmet

/-- A coordinate as a number of its own, or as the row that stands in its place. -/
def boxed (t : Tensor Float) : String :=
  match t.shape, t.entries with
  | [], [a] => s!"np.float64({Decimal.text a})"
  | _, _ => Decimal.listing t

def message : Unmet Float → String
  | .search why => why.message Decimal.text
  | .searchGiven why => why.message Value.shown
  | .square => "SymmetricIndefiniteFactor expects a square matrix."
  | .quadratic q b => s!"Incompatible shapes Q={Tensor.shapeText q}, b={Tensor.shapeText b}."
  | .finite name => s!"{name} contains non-finite entries."
  | .feasible i x l u =>
      s!"Iterate leaves the box at index {i}: x={boxed x}, bounds=[{boxed (.single l.float)}, " ++
        s!"{boxed (.single u.float)}]."
  | .room k depth => s!"Memory holds {k} pairs, depth is {depth.text}."
  | .scaling theta => s!"Memory scaling theta={Decimal.text theta} is not positive."
  | .curvature i => s!"Correction pair {i} has non-positive curvature."

end Unmet

namespace Fault

/-- The text of a fault that has one. What the client raised without being counted is left to the client. -/
def message? : Fault Float → Option String
  | .invalid why => some why.message
  | .breakdown why => some why.message
  | .failure (.uncounted _) => none
  | .failure why => some why.message
  | .budget limit => some s!"Evaluation budget of {limit.text} exhausted."
  | .reentered => some "Lbfgsb.minimize is not reentrant."
  | .unmet why => some why.message
  | .misread _ | .mismatch | .nonFinite | .unknown | .outOfRange | .oversized | .arithmetic _ | .client _
  | .unfinished => none

end Fault

end BoxBfgs
