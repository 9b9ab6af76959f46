import BoxBfgs.Bounds
import BoxBfgs.Decimal.Reading
import BoxBfgs.Decimal.Shortest
import BoxBfgs.Text.Quoted

namespace BoxBfgs

/-- Why a value cannot be used: it is of the right sort but stands for no such number, it is of a sort that is
no number, or it is too large. -/
inductive Misread where
  | malformed
  | unfit
  | unbounded
deriving DecidableEq, Repr

inductive Value where
  | null
  | flag (b : Bool)
  | whole (i : Int)
  | real (a : Float)
  | text (s : String)
  | list (items : List Value)
  | table (fields : List (String × Value))
  | bounds {n : Nat} (b : Bounds Float n)

namespace Value

def sort : Value → String
  | .null => "NoneType"
  | .flag _ => "bool"
  | .whole _ => "int"
  | .real _ => "float"
  | .text _ => "str"
  | .list _ => "list"
  | .table _ => "dict"
  | .bounds _ => "Bounds"

def commaSeparated (parts : List String) : String := ", ".intercalate parts

mutual

def quoted : Value → String
  | .null => "None"
  | .flag b => if b then "True" else "False"
  | .whole i => toString i
  | .real a => Decimal.text a
  | .text s => Text.quote s
  | .list items => "[" ++ commaSeparated (quotedItems items) ++ "]"
  | .table fields => "\x7b" ++ commaSeparated (quotedFields fields) ++ "\x7d"
  | .bounds b => b.text

def quotedItems : List Value → List String
  | [] => []
  | v :: rest => quoted v :: quotedItems rest

def quotedFields : List (String × Value) → List String
  | [] => []
  | (name, v) :: rest => (Text.quote name ++ ": " ++ quoted v) :: quotedFields rest

end

def shown : Value → String
  | .text s => s
  | v => v.quoted

/-- Half of the gap below `2 ^ 1024` above the largest double: from there on an integer has no double. -/
def intLimit : Nat := Nat.pow 2 1024 - Nat.pow 2 970

def ofFlag (b : Bool) : Float := if b then 1.0 else 0.0

/-- The value as a number; a text is read, and a flag is one or zero. -/
def number : Value → Except Misread Float
  | .flag b => .ok (ofFlag b)
  | .whole i => if i.natAbs < intLimit then .ok (Float.ofInt i) else .error .unbounded
  | .real a => .ok a
  | .text s => match Decimal.read? s with
    | some a => .ok a
    | none => .error .malformed
  | .null | .list _ | .table _ | .bounds _ => .error .unfit

def truncate (a : Float) : Except Misread Int :=
  match Binary.ofFloat? a with
  | some b =>
      let (num, den) := b.quotient
      .ok (if Binary.negative a then -(num / den : Nat) else (num / den : Nat))
  | none => if a.isNaN then .error .malformed else .error .unbounded

/-- The value as an integer: a text is read, and a fraction is cut off. -/
def integer : Value → Except Misread Int
  | .flag b => .ok (if b then 1 else 0)
  | .whole i => .ok i
  | .real a => truncate a
  | .text s => match Decimal.readInt? s with
    | some i => .ok i
    | none => .error .malformed
  | .null | .list _ | .table _ | .bounds _ => .error .unfit

/-- The value as a count; only an integer or a flag is one. -/
def index : Value → Except Misread Int
  | .flag b => .ok (if b then 1 else 0)
  | .whole i => .ok i
  | .null | .real _ | .text _ | .list _ | .table _ | .bounds _ => .error .unfit

/-- What is empty, zero or absent does not hold. -/
def holds : Value → Bool
  | .null => false
  | .flag b => b
  | .whole i => i != 0
  | .real a => a != 0.0
  | .text s => !s.isEmpty
  | .list items => !items.isEmpty
  | .table fields => !fields.isEmpty
  | .bounds _ => true

/-- The double nearest to an integer, an infinity where there is none. -/
def nearest (i : Int) : Float :=
  if i.natAbs < intLimit then Float.ofInt i else if i < 0 then -1.0 / 0.0 else 1.0 / 0.0

/-- The largest double that is not above an integer of which the nearest one is not negative. -/
def nearestBelow (i : Int) : Float :=
  let a := nearest i
  if 0.0 < a && Binary.compareInt? i a == some .lt then Float.ofBits (a.toBits - 1) else a

/-- What a number compares as with one that is small; an integer without a double compares as an infinity. -/
def comparable : Value → Except Misread Float
  | .flag b => .ok (ofFlag b)
  | .whole i => .ok (nearest i)
  | .real a => .ok a
  | .null | .text _ | .list _ | .table _ | .bounds _ => .error .unfit

/-- The value of a name; of two for one name the later one. -/
def field? (fields : List (String × Value)) (name : String) : Option Value :=
  (fields.reverse.find? fun f => f.1 == name).map Prod.snd

end Value

end BoxBfgs
