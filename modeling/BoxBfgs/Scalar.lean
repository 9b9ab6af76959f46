namespace BoxBfgs

/-- The numbers a minimisation runs on: doubles when it runs, reals when it is reasoned about. A comparison
with an unordered number is false. -/
class Scalar (α : Type) extends Zero α, One α, Add α, Sub α, Mul α, Div α, Neg α, LT α, LE α, BEq α,
    OfScientific α where
  decLt : DecidableLT α
  decLe : DecidableLE α
  abs : α → α
  sqrt : α → α
  isFinite : α → Bool
  /-- Whether a number other than zero has a minus sign. -/
  negative : α → Bool
  ofInt : Int → α

instance (priority := low) Scalar.decidableLt {α : Type} [Scalar α] (a b : α) : Decidable (a < b) :=
  Scalar.decLt a b

instance (priority := low) Scalar.decidableLe {α : Type} [Scalar α] (a b : α) : Decidable (a ≤ b) :=
  Scalar.decLe a b

/-- Doubles; what is no number comes out of a computation with a minus sign. -/
instance Scalar.ofDoubles : Scalar Float where
  toZero := ⟨0.0⟩
  toOne := ⟨1.0⟩
  decLt := inferInstance
  decLe := inferInstance
  abs := Float.abs
  sqrt := Float.sqrt
  isFinite := Float.isFinite
  negative a := a < 0.0 || a.isNaN
  ofInt := Float.ofInt

namespace Scalar

variable {α : Type} [Scalar α]

/-- The gap between one and the next double, `2 ^ (-52)`. -/
def epsilon : α := 2.220446049250313080847263336181640625e-16

def unordered (a : α) : Bool := !(a == a)

/-- The smaller number; the first one is kept on a tie and when the two are unordered. -/
def least (a b : α) : α := if b < a then b else a

/-- The larger number; the first one is kept on a tie and when the two are unordered. -/
def greatest (a b : α) : α := if b > a then b else a

/-- The smaller number, unordered as soon as one of the two is. -/
def minimum (a b : α) : α := if a ≤ b || unordered a then a else b

/-- The larger number, unordered as soon as one of the two is. -/
def maximum (a b : α) : α := if b ≤ a || unordered a then a else b

end Scalar

end BoxBfgs
