import BoxBfgs.Fault

namespace BoxBfgs

/-- A double that remembers the value it was given as, and the sign it has where it is no number. Integers and flags are
compared and computed with as the integers they are, until they meet a double. -/
structure Traced where
  value : Float
  given : Option Value := none
  minus : Bool := true

namespace Traced

def ofValue (v : Value) : Except Misread Traced := v.comparable.map fun a => { value := a, given := some v, minus := false }

/-- A number read from a value; a text can give a minus sign also to what is no number. -/
def read (v : Value) : Except Misread Traced :=
  v.number.map fun a => { value := a, minus := match v with
    | .text s => (Text.strip s).startsWith "-"
    | _ => false }

def shown (t : Traced) : Value := t.given.getD (.real t.value)

def whole (i : Int) : Traced := { value := Value.nearest i, given := some (.whole i), minus := false }

def whole? (t : Traced) : Option Int :=
  match t.given with
  | some (.whole i) => some i
  | some (.flag b) => some b.toNat
  | _ => none

def compare? (x y : Traced) : Option Ordering :=
  match x.whole?, y.whole? with
  | some i, some j => some (compare i j)
  | some i, none => Binary.compareInt? i y.value
  | none, some j => (Binary.compareInt? j x.value).map Ordering.swap
  | none, none =>
      if x.value < y.value then some .lt else if y.value < x.value then some .gt
      else if x.value == y.value then some .eq else none

def less (x y : Traced) : Bool := x.compare? y == some .lt

def same (x y : Traced) : Bool := x.compare? y == some .eq

/-- A double computed from two numbers. What is no number keeps the sign of the first operand that is none. -/
def result (a : Float) (x y : Traced) : Traced :=
  { value := a, minus := if x.value.isNaN then x.minus else if y.value.isNaN then y.minus else true }

/-- What two numbers come to, as integers or as doubles. -/
def joined (exact : Int → Int → Int) (rounded : Float → Float → Float) (x y : Traced) : Traced :=
  match x.whole?, y.whole? with
  | some i, some j => whole (exact i j)
  | _, _ => result (rounded x.value y.value) x y

/-- What a number comes to as an integer or as a double, with the sign it has where it is none. -/
def changed (exact : Int → Int) (rounded : Float → Float) (minus : Bool) (x : Traced) : Traced :=
  match x.whole? with
  | some i => whole (exact i)
  | none => { value := rounded x.value, minus }

instance instScalar : Scalar Traced where
  toZero := ⟨{ value := 0.0 }⟩
  toOne := ⟨{ value := 1.0 }⟩
  toAdd := ⟨joined Int.add Float.add⟩
  toSub := ⟨joined Int.sub Float.sub⟩
  toMul := ⟨joined Int.mul Float.mul⟩
  toDiv := ⟨fun x y => result (x.value / y.value) x y⟩
  toNeg := ⟨fun x => changed Int.neg Float.neg (!x.minus) x⟩
  toLT := ⟨fun x y => less x y⟩
  toLE := ⟨fun x y => less x y || same x y⟩
  toBEq := ⟨same⟩
  toOfScientific := ⟨fun m s e => { value := OfScientific.ofScientific m s e }⟩
  decLt x y := inferInstanceAs (Decidable (less x y = true))
  decLe x y := inferInstanceAs (Decidable ((less x y || same x y) = true))
  abs := changed (fun i => i.natAbs) Float.abs false
  sqrt x := result x.value.sqrt x x
  isFinite x := x.value.isFinite
  negative x := x.value < 0.0 || (x.value.isNaN && x.minus)
  ofInt i := { value := Float.ofInt i }

end Traced

end BoxBfgs
