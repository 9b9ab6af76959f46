import BoxBfgs.Checked.Factor
import BoxBfgs.Debug
import BoxBfgs.Subspace

namespace BoxBfgs

/-- The room of a memory: a place for each pair that it can hold, and for the products between any two of them. What was
written there once stays, also when the memory does not count it any more. -/
structure Room (α : Type) (n : Nat) where
  pairs : List (Pair α n)
  sty : List (List α)
  sts : List (List α)

namespace Room

variable {α : Type} [Scalar α] {n : Nat}

def empty (n capacity : Nat) : Room α n :=
  let zeros := List.replicate capacity (List.replicate capacity 0)
  { pairs := List.replicate capacity ⟨.replicate n 0, .replicate n 0⟩, sty := zeros, sts := zeros }

variable (r : Room α n)

abbrev capacity : Nat := r.pairs.length

def square (capacity : Nat) (f : Nat → Nat → α) : List (List α) :=
  (List.range capacity).map fun i => (List.range capacity).map (f i)

/-- Everything one place on. What has nothing behind it stays where it is. -/
def shift : Room α n :=
  let inside (i j : Nat) : Bool := i + 1 < r.capacity && j + 1 < r.capacity
  let moved (rows : List (List α)) (i j : Nat) : α :=
    if inside i j then Memory.product rows (i + 1) (j + 1) else Memory.product rows i j
  { pairs := r.pairs.drop 1 ++ r.pairs.drop (r.capacity - 1)
    sty := square r.capacity (moved r.sty)
    sts := square r.capacity (moved r.sts) }

def put (k : Nat) (p : Pair α n) : Room α n := { r with pairs := r.pairs.set k p }

/-- A pair put in a place, with its products with those before it. -/
def write (k : Nat) (p : Pair α n) : Room α n :=
  let at? (i : Nat) : Pair α n := if i = k then p else (r.pairs[i]?).getD p
  let styEntry (i j : Nat) : α :=
    if i = k && j ≤ k then Vec.dot (at? j).y p.s
    else if j = k && i < k then Vec.dot (at? i).s p.y
    else Memory.product r.sty i j
  let stsEntry (i j : Nat) : α :=
    if i = k && j ≤ k then Vec.dot (at? j).s p.s
    else if j = k && i < k then Vec.dot (at? i).s p.s
    else Memory.product r.sts i j
  { pairs := r.pairs.set k p, sty := square r.capacity styEntry, sts := square r.capacity stsEntry }

/-- A pair put in the last place by a memory that keeps none: only the products of others with it are written. -/
def writeLast (p : Pair α n) : Room α n :=
  let last := r.capacity - 1
  let styEntry (i j : Nat) : α :=
    if j = last && i < last then ((r.pairs[i]?).map fun q => Vec.dot q.s p.y).getD 0 else Memory.product r.sty i j
  { r with pairs := r.pairs.set last p, sty := square r.capacity styEntry }

def fill (m : Memory α n) : Memory α n :=
  if h : m.size ≤ r.capacity then
    { m with
      pairs := r.pairs.take m.size
      sty := (r.sty.take m.size).map (List.take m.size)
      sts := (r.sts.take m.size).map (List.take m.size)
      cached := m.cached.map fun f => cast (by rw [List.length_take, Nat.min_eq_left h]) f }
  else m

end Room

/-- A memory of any dimension with the room it was given. The sizes that it was told to have are kept as well: the room
is that of the last sizes for which there was any. -/
structure Store (α : Type) where
  n : Int
  depth : Value
  width : Nat
  memory : Memory α width
  room : Room α width

/-- A memory for a dimension and a depth, without pairs. One of the same dimension and depth is used again. -/
def Memory.renew {α : Type} [Scalar α] (old : Option ((n : Nat) × Memory α n)) (n depth : Nat) : Memory α n :=
  match old with
  | none => .empty n depth
  | some ⟨k, m⟩ => if h : k = n then if m.depth = depth then h ▸ m.clear else .empty n depth else .empty n depth

namespace Store

variable {α : Type} [Scalar α]

def invalid {β : Type} (why : Invalid α) : Except (Fault α) β := .error (.invalid why)

def capOf (v : Value) : Except (Fault α) Cap :=
  match Cap.ofValue? v with
  | some c => .ok c
  | none => Fault.unfit

/-- Refuses sizes that no memory has. -/
def checkSizes (n depth : Value) : Except (Fault α) Unit :=
  (capOf depth).bind fun d =>
    if d.less 1 || !d.atMost Memory.maxDepth then invalid (.depth d)
    else (capOf n).bind fun n => if n.less 0 then invalid (.dimension n) else .ok ()

def empty (n depth : Nat) : Store α :=
  { n, depth := .whole depth, width := n, memory := .empty n depth, room := .empty n depth }

/-- The number of pairs that a depth stands for; one that is no whole number is never reached. -/
def limitOf (depth : Value) : Int :=
  match (List.range (Memory.maxDepth + 1)).find? fun (k : Nat) => depth.isWhole k with
  | some k => k
  | none => -1

variable (m : Store α)

def setDepth (depth : Value) : Store α := { m with depth, memory := { m.memory with depth := limitOf depth } }

def clear : Store α := { m with memory := m.memory.clear }

/-- Sizes with new room. The sizes are told before there is room for them. -/
def rebuild (n depth : Value) : Except (Fault α) Unit × Store α :=
  match n.integer, depth.integer with
  | .ok n, .ok depth =>
      match Fault.checkRoom (depth * n) with
      | .error why => (.error why, { m with n }.setDepth (.whole depth))
      | .ok () => (.ok (), empty n.toNat depth.toNat)
  | .error why, _ | _, .error why => (.error (.misread why), m)

/-- A memory without pairs, in the same room if the dimension and the depth stay. -/
def resize (n depth : Value) : Except (Fault α) Unit × Store α :=
  match checkSizes n depth with
  | .error why => (.error why, m)
  | .ok () => if n.isWhole m.n && depth.equals m.depth then (.ok (), m.clear) else m.rebuild n depth

def make (n depth : Value) : Except (Fault α) (Store α) :=
  (checkSizes n depth).bind fun _ =>
    let (r, m) := (empty 0 0 : Store α).rebuild n depth
    r.map fun _ => m

def setTheta (theta : α) : Store α := { m with memory := { m.memory with theta } }

def keepFactor : Store α := { m with memory := m.memory.keepFactor }

/-- Two vectors of one length make up a pair, and so do two numbers. -/
def admissible (s y : Tensor α) : Except (Fault α) Bool := do
  let _ ← s.dot y
  let _ ← y.dot y
  match y.vector? s.entries.length with
  | some y => return Memory.admissible ⟨Vec.ofList s.entries, y⟩
  | none => .error .mismatch

def full : Bool := m.memory.size = m.memory.depth

/-- The room when a place for the next pair has been made, and the number of that place. A memory that keeps no pair
takes the last place. -/
def vacated : Room α m.width × Nat :=
  if m.full then (m.room.shift, (if m.memory.isEmpty then m.room.capacity else m.memory.size) - 1)
  else (m.room, m.memory.size)

/-- What is left of a memory that a pair of a wrong length was offered to: a place was made for it, and a single entry
was repeated to fill the place. -/
def misfit (s y : Tensor α) : Store α :=
  let (room, k) := m.vacated
  let room := match s.entries, y.entries with
    | [a], [b] => room.put k ⟨.replicate _ a, .replicate _ b⟩
    | _, _ => room
  { m with room, memory := if m.full then room.fill m.memory else m.memory }

/-- A memory that was given no depth keeps no pair, but measures its scaling by the curvature in the last place. -/
def pushNowhere (p : Pair α m.width) : Store α :=
  let room := m.room.shift.writeLast p
  let last := room.capacity - 1
  { m with room, memory := { m.memory with theta := Vec.dot p.y p.y / Memory.product room.sty last last } }

def vector? (v : Tensor α) : Option (Vector α m.width) := if v.rank = 1 then v.vector? m.width else none

def push (s y : Tensor α) : Except (Fault α) Bool × Store α :=
  match admissible s y with
  | .error why => (.error why, m)
  | .ok false => (.ok false, m)
  | .ok true =>
      let (room, k) := m.vacated
      if room.capacity ≤ k then (.error .outOfRange, m)
      else
        match m.vector? s, m.vector? y with
        | some s, some y =>
            if m.full && m.memory.isEmpty then (.ok true, m.pushNowhere ⟨s, y⟩)
            else
              match m.memory.push ⟨s, y⟩ with
              | .stored memory => (.ok true, { m with memory, room := room.write k ⟨s, y⟩ })
              | .refused => (.ok false, m)
              | .noRoom => (.error .outOfRange, m)
        | _, _ => (.error .mismatch, m.misfit s y)

/-- Pushes pairs one after another: what became of each, and the memory afterwards. -/
def pushAll (m : Store α) : List (Tensor α × Tensor α) → Except (Fault α) (List Bool × Store α)
  | [] => .ok ([], m)
  | (s, y) :: rest =>
      match m.push s y with
      | (.error why, _) => .error why
      | (.ok b, m') => (m'.pushAll rest).map fun (bs, m'') => (b :: bs, m'')

def checkAdmissible : Except (Fault α) Unit :=
  (capOf m.depth).bind fun d =>
    if d.less m.memory.size then .error (.unmet (.room m.memory.size d)) else Debug.checkModel m.memory

def listed {n : Nat} (r : Except (Unsolved α) (Vector α n)) : Except (Fault α) (Tensor α) :=
  (Fault.liftUnsolved r).map Tensor.ofVector

/-! Products with vectors, and with what stands in place of a vector. -/

/-- `Y` and `S` by their rows, one for each pair. -/
def rowsY : Tensor α := ⟨[m.memory.size, m.width], m.memory.pairs.flatMap fun p => p.y.toList⟩

def rowsS : Tensor α := ⟨[m.memory.size, m.width], m.memory.pairs.flatMap fun p => p.s.toList⟩

def transposeW (v : Tensor α) : Except (Fault α) (Tensor α) :=
  match m.vector? v with
  | some v => .ok (.ofVector (m.memory.transposeW v))
  | none => do
      let y ← m.rowsY.matmul v
      let s ← m.rowsS.matmul v
      Fault.fitting (y.append? (s.scale m.memory.theta))

/-- `W u`. Without pairs it is zero in as many coordinates as the memory was told to have. -/
def timesW (u : Tensor α) : Except (Fault α) (Tensor α) :=
  let k := m.memory.size
  if m.memory.isEmpty then (Fault.checkRoom m.n).map fun _ => .replicate [m.n.toNat] 0
  else
    match if u.rank = 1 then u.vector? (k + k) else none with
    | some u => .ok (.ofVector (m.memory.timesW u))
    | none =>
        if u.rank = 0 then .error .outOfRange
        else do
          let y ← m.rowsY.transpose.matmul (u.front k)
          let s ← m.rowsS.transpose.matmul (u.behind k)
          y.add (s.scale m.memory.theta)

/-- A solve with the middle matrix; without pairs the answer is zero, of any shape. -/
def solveMiddle (u : Tensor α) : Except (Fault α) (Tensor α) :=
  if m.memory.isEmpty then .ok (u.map fun _ => 0)
  else
    match m.memory.factor with
    | .error why => .error (.breakdown why)
    | .ok f => Checked.solve f u

def hessianProduct (v : Tensor α) : Except (Fault α) (Tensor α) :=
  if m.memory.isEmpty then .ok (v.scale m.memory.theta)
  else
    match m.vector? v with
    | some v => listed (m.memory.hessianProduct v)
    | none => do (v.scale m.memory.theta).subFrom (← m.timesW (← m.solveMiddle (← m.transposeW v)))

/-- A product with the inverse; as soon as there are pairs it takes inner products, which only vectors have. -/
def inverseHessianProduct (v : Tensor α) : Except (Fault α) (Tensor α) :=
  if m.memory.isEmpty then .ok (v.divide m.memory.theta)
  else
    match m.vector? v with
    | some v => .ok (.ofVector (m.memory.inverseHessianProduct v))
    | none => ((Tensor.replicate [m.width] 0).dot v).bind fun _ => .error .mismatch

/-- The row of `W` for a coordinate by its number. -/
def rowW (i : Int) : Except (Fault α) (Tensor α) :=
  (Fault.inRange (Tensor.place? m.width i)).map fun i => .ofVector (m.memory.rowW i)

/-- The rows of `W` for coordinates by their numbers; numbers in rows are read backwards. -/
def rowsW (numbers : Tensor Int) : Except (Fault α) (Tensor α) :=
  let numbers := numbers.transpose
  (Fault.inRange (numbers.entries.mapM (Tensor.place? m.width))).map fun places =>
    ⟨numbers.shape ++ [m.memory.size + m.memory.size], places.flatMap fun i => (m.memory.rowW i).toList⟩

/-- The Newton step on the coordinates of the given numbers; without pairs the numbers do not matter. -/
def newtonStep (numbers : Tensor Int) (r : Tensor α) : Except (Fault α) (Tensor α) :=
  let theta := m.memory.theta
  let delta := (r.map fun a => -a).divide theta
  if m.memory.isEmpty then .ok delta
  else do
    let v ← m.rowsW numbers
    match numbers.shape, numbers.entries.mapM (Tensor.place? m.width),
        if r.rank = 1 then r.vector? numbers.entries.length else none with
    | [_], some places, some r =>
        if h : places.length = numbers.entries.length then
          listed (Subspace.newtonStep m.memory (Vec.ofList places) (h ▸ r))
        else .error .mismatch
    | _, _, _ =>
        let products ← v.transpose.matmul v
        let system ← (Tensor.ofDense m.memory.middle).sub (products.divide theta)
        let factor ← Checked.factor (← Checked.symmetrize system)
        let u ← Checked.solve factor.2 (← v.transpose.matmul r)
        delta.subFrom ((← v.matmul u).divide (theta * theta))

end Store

end BoxBfgs
