import BoxBfgs.Box

namespace BoxBfgs

/-- Which sides of a coordinate are meant to be limited. A code of no such meaning can stand there as well. -/
inductive Kind where
  | free
  | lower
  | both
  | upper
  | other (code : Int)
deriving DecidableEq, Repr

namespace Kind

def code : Kind → Int
  | .free => 0
  | .lower => 1
  | .both => 2
  | .upper => 3
  | .other k => k

def ofCode (k : Int) : Kind :=
  if k = 0 then .free else if k = 1 then .lower else if k = 2 then .both else if k = 3 then .upper else .other k

def name? : Kind → Option String
  | .free => some "FREE"
  | .lower => some "LOWER"
  | .both => some "BOTH"
  | .upper => some "UPPER"
  | .other _ => none

def ofName? (s : String) : Option Kind := [free, lower, both, upper].find? fun k => k.name? == some s

def hasLower (k : Kind) : Bool := k == .lower || k == .both

def hasUpper (k : Kind) : Bool := k == .upper || k == .both

def ofLimits {α : Type} [Scalar α] (l u : Limit α) : Kind :=
  match l.isFinite, u.isFinite with
  | true, true => .both
  | true, false => .lower
  | false, true => .upper
  | false, false => .free

end Kind

structure Bounds (α : Type) (n : Nat) extends Box α n where
  kinds : Vector Kind n
deriving DecidableEq

namespace Bounds

variable {α : Type} [Scalar α] {n : Nat}

def free (n : Nat) : Bounds α n :=
  { lower := .replicate n .negInf, upper := .replicate n .posInf, kinds := .replicate n .free }

def unconstrained (b : Bounds α n) : Bool := b.kinds.all (· == .free)

/-- Whether the kinds say that each coordinate, of at least one, is limited on both sides. -/
def boxed (b : Bounds α n) : Bool := n != 0 && b.kinds.all (· == .both)

def constrained (b : Bounds α n) : Nat := b.kinds.countP (· != .free)

def text (b : Bounds α n) : String := "Bounds(dim=" ++ toString n ++ ", constrained=" ++ toString b.constrained ++ ")"

/-- The box of those limits that count by their kind. -/
def relaxed (kinds : Vector Kind n) (lower upper : Vector (Limit α) n) : Box α n :=
  { lower := kinds.zipWith (fun k l => if k.hasLower then l else .negInf) lower
    upper := kinds.zipWith (fun k u => if k.hasUpper then u else .posInf) upper }

def activeFinite (kinds : Vector Kind n) (lower upper : Vector (Limit α) n) : Bool :=
  (List.finRange n).all fun i =>
    (!(kinds.get i).hasLower || (lower.get i).isFinite) && (!(kinds.get i).hasUpper || (upper.get i).isFinite)

end Bounds

end BoxBfgs
