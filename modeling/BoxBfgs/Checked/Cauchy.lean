import BoxBfgs.Checked.Bounds
import BoxBfgs.Store

namespace BoxBfgs.Checked

variable {α : Type} [Scalar α]

structure Place (α : Type) where
  x : Tensor α
  g : Tensor α
  dim : Nat
  bounds : Bounds α dim
  store : Store α

structure Spot (α : Type) where
  x : Tensor α
  c : Tensor α
  free : Tensor Bool
  t : α
  passed : Nat

structure Reached (α : Type) where
  x : Tensor α
  direction : Tensor α
  alpha : α
  free : Tensor Bool

def Reached.truncated (s : Reached α) : Bool := s.alpha < 1

def Spot.of {n k : Nat} (p : CauchyPoint α n k) : Spot α :=
  { x := .ofVector p.x, c := .ofVector p.c, free := .ofVector p.free, t := p.t, passed := p.passed }

def Reached.of {n : Nat} (s : SubspaceStep α n) : Reached α :=
  { x := .ofVector s.x, direction := .ofVector s.direction, alpha := s.alpha, free := .ofVector s.free }

/-- A problem whose lengths agree with that of the memory. -/
structure Fitted (α : Type) where
  n : Nat
  x : Vector α n
  g : Vector α n
  bounds : Bounds α n
  memory : Memory α n

namespace Place

variable (p : Place α)

def fitted? : Option (Fitted α) :=
  let n := p.store.width
  match p.store.vector? p.x, p.store.vector? p.g, if h : p.dim = n then some (h ▸ p.bounds : Bounds α n) else none with
  | some x, some g, some bounds => some { n, x, g, bounds, memory := p.store.memory }
  | _, _, _ => none

/-- The Cauchy point of a problem in which something does not fit. It is the start if the path does not leave it;
otherwise the end of the path cannot be brought into the box. -/
def unfitted : Except (Fault α) (Spot α) := do
  let path ← stops p.x p.g p.bounds.lowers p.bounds.uppers
  if path.d.entries.any fun a => a != 0 then
    match p.store.vector? p.x, p.store.vector? p.g with
    | some x, some g =>
        let _ ← Fault.liftUnsolved (Cauchy.point (Bounds.free _).toBox p.store.memory x g)
        .error .mismatch
    | _, _ => .error .mismatch
  else
    let size := p.store.memory.size + p.store.memory.size
    return { x := p.x, c := .replicate [size] 0, free := path.t.map fun stop => stop.undercuts 0, t := 0, passed := 0 }

def cauchy : Except (Fault α) (Spot α) :=
  match p.fitted? with
  | some f => (Fault.liftUnsolved (Cauchy.point f.bounds.toBox f.memory f.x f.g)).map Spot.of
  | none => p.unfitted

def modelGradient (c : Spot α) : Except (Fault α) (Tensor α) := do
  let r ← p.g.add ((← c.x.sub p.x).scale p.store.memory.theta)
  if p.store.memory.isEmpty then return r
  else r.subFrom (← p.store.timesW (← p.store.solveMiddle c.c))

def freeNumbers (c : Spot α) : List Nat :=
  (c.free.entries.zip (List.range c.free.entries.length)).filterMap fun p => if p.1 then some p.2 else none

/-- A step in the free coordinates from a Cauchy point that does not fit. -/
def reach (c : Spot α) : Except (Fault α) (Reached α) := do
  let places := freeNumbers c
  if places.isEmpty then return { x := c.x, direction := ← c.x.sub p.x, alpha := 1, free := c.free }
  else
    let numbers : Tensor Int := .ofList (places.map Int.ofNat)
    let r ← Fault.inRange ((← p.modelGradient c).take? numbers)
    let delta ← p.store.newtonStep numbers r
    let start ← Fault.inRange (c.x.take? numbers)
    let lower ← Fault.inRange (p.bounds.lowers.take? numbers)
    let upper ← Fault.inRange (p.bounds.uppers.take? numbers)
    let alpha := Scalar.least 1 (← maxStep start delta lower upper 1)
    let x ← Fault.fitting (c.x.put? places (← project (← start.add (delta.scale alpha)) lower upper))
    return { x, direction := ← x.sub p.x, alpha, free := c.free }

/-- A Cauchy point in the lengths of the problem. Without pairs nothing of `c` counts, and else the first entries. -/
def spot? (f : Fitted α) (c : Spot α) : Option (CauchyPoint α f.n f.memory.size) :=
  let size := f.memory.size + f.memory.size
  let known := if f.memory.isEmpty then List.replicate size 0 else c.c.entries.take size
  if c.x.rank = 1 && c.free.rank = 1 && (c.c.rank = 1 || f.memory.isEmpty) then
    match c.x.vector? f.n, Vec.ofList? size known, c.free.vector? f.n with
    | some x, some known, some free => some { x, c := known, free, t := c.t, passed := c.passed }
    | _, _, _ => none
  else none

def subspace (c : Spot α) : Except (Fault α) (Reached α) :=
  match p.fitted? with
  | none => p.reach c
  | some f =>
      match spot? f c with
      | some s => (Fault.liftUnsolved (Subspace.minimize f.bounds.toBox f.memory f.x f.g s)).map Reached.of
      | none => p.reach c

end Place

end BoxBfgs.Checked
