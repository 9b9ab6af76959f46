import BoxBfgs.Tensor.Stretch

namespace BoxBfgs.Tensor

variable {β : Type}

/-- Whether the lengths of a mask are those of the outer rows of a shape. A mask without flags chooses nothing, whatever
its empty lengths are held against. -/
def covers : List Nat → List Nat → Bool
  | [], _ => true
  | m :: mask, n :: shape => (m == 0 || m == n) && covers mask shape
  | _ :: _, [] => false

def choose? (t : Tensor β) (mask : Tensor Bool) : Option (Tensor β) :=
  if covers mask.shape t.shape then
    let inner := t.shape.drop mask.rank
    let rows := parts (room inner) mask.entries.length t.entries
    let chosen := ((rows.zip mask.entries).filter Prod.snd).map fun p => (⟨inner, p.1⟩ : Tensor β)
    some (ofRows inner chosen)
  else none

/-- A place among `n` by its number, from the end if that is negative. -/
def place? (n : Nat) (i : Int) : Option (Fin n) :=
  let k := if i < 0 then i + n else i
  if h : 0 ≤ k ∧ k < n then some ⟨k.toNat, by omega⟩ else none

def take? (t : Tensor β) (numbers : Tensor Int) : Option (Tensor β) :=
  match t.shape with
  | [] => none
  | n :: inner =>
      let rows := t.rows.toArray
      (numbers.entries.mapM fun i => (place? n i).bind fun k => rows[k.val]?).map fun chosen =>
        ⟨numbers.shape ++ inner, chosen.flatMap entries⟩

def row? (t : Tensor β) (i : Nat) : Option (Tensor β) := t.rows[i]?

def front (k : Nat) (t : Tensor β) : Tensor β := ofRows t.shape.tail (t.rows.take k)

def behind (k : Nat) (t : Tensor β) : Tensor β := ofRows t.shape.tail (t.rows.drop k)

/-- The rows of one tensor followed by those of another one, if they have one shape. -/
def append? (a b : Tensor β) : Option (Tensor β) :=
  match a.shape, b.shape with
  | m :: s, n :: u => if s = u then some ⟨(m + n) :: s, a.entries ++ b.entries⟩ else none
  | _, _ => none

/-- A value for each row of the given numbers. What is to be written is stretched to them, lengths of one in front left
out. -/
def put? (t : Tensor β) (numbers : List Nat) (values : Tensor β) : Option (Tensor β) :=
  match t.shape with
  | [] => none
  | _ :: inner =>
      let shape := numbers.length :: inner
      let extra := values.rank - shape.length
      let given : Tensor β := ⟨values.shape.drop extra, values.entries⟩
      if (values.shape.take extra).any (· != 1) || commonShape? given.shape shape != some shape then none
      else
        let written := numbers.zip (given.stretch shape).rows
        some (ofRows inner (written.foldl (fun rows p => rows.set p.1 p.2) t.rows))

end BoxBfgs.Tensor
