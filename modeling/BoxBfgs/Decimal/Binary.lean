namespace BoxBfgs

/-- A finite double without its sign: `mantissa * 2 ^ exponent`. -/
structure Binary where
  mantissa : Nat
  exponent : Int
deriving DecidableEq, Repr

namespace Binary

/-- The leading bit of a mantissa that is not stored, above the 52 that are. -/
def hidden : Nat := 0x10000000000000

/-- The magnitude of a double, `none` for an infinity and for what is not a number. -/
def ofFloat? (a : Float) : Option Binary :=
  let bits := a.toBits.toNat
  let field : Nat := bits / hidden % 2048
  let fraction : Nat := bits % hidden
  if field = 2047 then none
  else if field = 0 then some ⟨fraction, -1074⟩
  else some ⟨hidden + fraction, (field : Int) - 1075⟩

def negative (a : Float) : Bool := a.toBits.toNat / 0x8000000000000000 % 2 = 1

/-- The value as a quotient of two naturals, the second one positive. -/
def quotient (b : Binary) : Nat × Nat :=
  if b.exponent < 0 then (b.mantissa, Nat.pow 2 b.exponent.natAbs) else (b.mantissa * Nat.pow 2 b.exponent.natAbs, 1)

/-- How an integer compares with a double, without rounding either; not at all with what is no number. -/
def compareInt? (i : Int) (a : Float) : Option Ordering :=
  match ofFloat? a with
  | some b =>
      let (num, den) := b.quotient
      some (compare (i * den) (if negative a then -(num : Int) else num))
  | none => if a.isNaN then none else some (if negative a then .gt else .lt)

def quarter (b : Binary) : Nat × Nat := quotient ⟨1, b.exponent - 2⟩

/-- Below a power of two the doubles lie twice as dense. -/
def lowerGapHalved (b : Binary) : Bool := b.mantissa == hidden && b.exponent > -1074

end Binary

end BoxBfgs
