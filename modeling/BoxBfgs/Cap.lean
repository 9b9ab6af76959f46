import BoxBfgs.Value

namespace BoxBfgs

inductive Cap where
  | flag (b : Bool)
  | whole (i : Int)
  | real (a : Float)

namespace Cap

def value : Cap → Value
  | .flag b => .flag b
  | .whole i => .whole i
  | .real a => .real a

def ofValue? : Value → Option Cap
  | .flag b => some (.flag b)
  | .whole i => some (.whole i)
  | .real a => some (.real a)
  | .null | .text _ | .list _ | .table _ | .bounds _ => none

def text (c : Cap) : String := c.value.shown

def reached (c : Cap) (count : Nat) : Bool :=
  match c with
  | .flag b => count ≥ b.toNat
  | .whole i => (count : Int) ≥ i
  | .real a => Float.ofNat count ≥ a

def less (c : Cap) (i : Int) : Bool :=
  match c with
  | .flag b => (b.toNat : Int) < i
  | .whole k => k < i
  | .real a => a < Float.ofInt i

def atMost (c : Cap) (i : Int) : Bool :=
  match c with
  | .flag b => b.toNat ≤ i
  | .whole k => k ≤ i
  | .real a => a ≤ Float.ofInt i

/-- A count that reaches the limit, if one does; otherwise a count that nobody reaches. -/
def rounds : Cap → Nat
  | .flag b => b.toNat
  | .whole i => i.toNat
  | .real a =>
      match Value.truncate a with
      | .ok i => (i + 1).toNat
      | .error _ => if a < 0.0 then 0 else 0x10000000000000000

end Cap

end BoxBfgs
