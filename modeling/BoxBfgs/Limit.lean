import BoxBfgs.Scalar

namespace BoxBfgs

/-- One side of a coordinate's range; an infinite limit is no restriction. -/
inductive Limit (α : Type) where
  | negInf
  | fin (a : α)
  | posInf
deriving DecidableEq, Repr

namespace Limit

variable {α : Type} [Scalar α]

def ofScalar (a : α) : Limit α :=
  if Scalar.isFinite a || Scalar.unordered a then .fin a else if a < 0 then .negInf else .posInf

/-- The limit as a number; the infinities are quotients by zero. -/
def value : Limit α → α
  | .negInf => -1 / 0
  | .fin a => a
  | .posInf => 1 / 0

def finite? : Limit α → Option α
  | .fin a => if Scalar.isFinite a then some a else none
  | _ => none

def isFinite (l : Limit α) : Bool := l.finite?.isSome

def unordered : Limit α → Bool
  | .fin a => Scalar.unordered a
  | _ => false

/-- `a ≤ l`. -/
def atMost (a : α) : Limit α → Bool
  | .negInf => !Scalar.isFinite a && a < 0
  | .fin b => a ≤ b
  | .posInf => !Scalar.unordered a

/-- `l ≤ a`. -/
def atLeast (a : α) : Limit α → Bool
  | .negInf => !Scalar.unordered a
  | .fin b => b ≤ a
  | .posInf => !Scalar.isFinite a && 0 < a

/-- `a < l`. -/
def undercuts (a : α) : Limit α → Bool
  | .negInf => false
  | .fin b => a < b
  | .posInf => Scalar.isFinite a || a < 0

/-- `l < a`. -/
def exceeds (a : α) : Limit α → Bool
  | .negInf => Scalar.isFinite a || 0 < a
  | .fin b => b < a
  | .posInf => false

def less : Limit α → Limit α → Bool
  | .negInf, .negInf => false
  | .negInf, l => !l.unordered
  | .fin a, .fin b => a < b
  | .fin a, .posInf => !Scalar.unordered a
  | _, _ => false

/-- `a` raised to the limit if it lies below; an unordered number stays. -/
def raise (l : Limit α) (a : α) : α := if l.atLeast a || Scalar.unordered a then a else l.value

/-- `a` lowered to the limit if it lies above; an unordered number stays. -/
def lower (l : Limit α) (a : α) : α := if l.atMost a || Scalar.unordered a then a else l.value

/-- The limit moved by `t`. An infinite limit stays, unless it is moved by the opposite infinity or by what is
no number. -/
def shift (l : Limit α) (t : α) : Limit α :=
  match l with
  | .fin a => ofScalar (a + t)
  | .negInf => if Scalar.isFinite t || t < 0 then .negInf else .fin (t - t)
  | .posInf => if Scalar.isFinite t || 0 < t then .posInf else .fin (t - t)

end Limit

end BoxBfgs
