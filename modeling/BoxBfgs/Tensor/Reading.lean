import BoxBfgs.Tensor.Basic
import BoxBfgs.Value.Parts

namespace BoxBfgs

/-- Why a value is no array of numbers: a text in it is no number, a value of some sort in it is none, its lists are
uneven below the lengths that agree, they are nested too deeply, or a number in it is too large or no integer. -/
inductive Unreadable where
  | text (s : String)
  | sort (name : String)
  | uneven (agreed : List Nat)
  | deep
  | large
  | fractional
deriving DecidableEq, Repr

def Unreadable.misread : Unreadable → Misread
  | .text _ | .uneven _ | .deep | .fractional => .malformed
  | .sort _ => .unfit
  | .large => .unbounded

namespace Tensor

variable {β : Type}

def maxRank : Nat := 64

def length? : Value → Option Nat
  | .list items => some items.length
  | _ => none

def sharedLength? : List Value → Option Nat
  | [] => none
  | v :: rest => if rest.all fun w => length? w == length? v then length? v else none

/-- The lengths of lists in lists, from the outside in, as long as all of one depth agree, and the values at the depth
behind. At most `fuel` depths are looked at. -/
def peel : Nat → List Value → List Nat × List Value
  | 0, vs => ([], vs)
  | fuel + 1, vs =>
      match sharedLength? vs with
      | some n =>
          let (shape, rest) := peel fuel (vs.flatMap Value.items)
          (n :: shape, rest)
      | none => ([], vs)

/-- The values that stand in a value and are no lists, with the lengths of the lists around them. -/
def layout (v : Value) : Except Unreadable (Tensor Value) :=
  let (shape, rest) := peel maxRank [v]
  if rest.any fun w => (length? w).isSome then .error (if shape.length = maxRank then .deep else .uneven shape)
  else .ok ⟨shape, rest⟩

def isEven (v : Value) : Bool := (layout v).isOk

def readWith (entry : Value → Except Unreadable β) (v : Value) : Except Unreadable (Tensor β) :=
  (layout v).bind fun t => (t.entries.mapM entry).map fun entries => ⟨t.shape, entries⟩

def unreadable (v : Value) : Misread → Unreadable
  | .unbounded => .large
  | .unfit => .sort v.sort
  | .malformed => match v with
    | .text s => .text s
    | _ => .fractional

def liftEntry (v : Value) : Except Misread β → Except Unreadable β
  | .ok b => .ok b
  | .error why => .error (unreadable v why)

/-- A value as one number; an absent one is no number but has a place. -/
def entry : Value → Except Unreadable Float
  | .null => .ok (0.0 / 0.0)
  | v => liftEntry v v.number

/-- The largest magnitude of an integer in an array and one more. -/
def wordLimit : Int := 0x8000000000000000

/-- A value as one integer, a fraction cut off. -/
def wholeEntry (v : Value) : Except Unreadable Int :=
  (liftEntry v v.integer).bind fun i => if -wordLimit ≤ i && i < wordLimit then .ok i else .error .large

def read (v : Value) : Except Unreadable (Tensor Float) := readWith entry v

def readWhole (v : Value) : Except Unreadable (Tensor Int) := readWith wholeEntry v

/-- The flags in the lists of a value: what holds and what does not. -/
def readFlags (v : Value) : Except Unreadable (Tensor Bool) := readWith (fun v => .ok v.holds) v

/-- The lengths in brackets, a single one followed by a comma. -/
def shapeText : List Nat → String
  | [n] => "(" ++ toString n ++ ",)"
  | shape => "(" ++ ", ".intercalate (shape.map toString) ++ ")"

def nested : List Nat → List Value → Value
  | [], l => l.headD .null
  | n :: inner, l => .list ((parts (room inner) n l).map (nested inner))

def toValue (write : β → Value) (t : Tensor β) : Value := nested t.shape (t.entries.map write)

end Tensor

end BoxBfgs
