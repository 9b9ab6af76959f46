import BoxBfgs.Fault
import BoxBfgs.Text.Blank

namespace BoxBfgs

namespace Bounds

/-- What is given for one side of all coordinates. Limits given one by one may stand in rows. -/
inductive Side (α : Type) where
  | absent
  | same (l : Limit α)
  | each (rows : Nat) (limits : List (Limit α))
  | uneven
  | unreadable (rows : Option Nat) (why : Misread)

inductive Tag where
  | kind (k : Kind)
  | unknown (given : Value)
  | unreadable (why : Misread)

/-- What is given for the kinds. Only tags in a list tell how many coordinates there are. -/
inductive Tags where
  | absent
  | single
  | spelled (tags : List Tag)
  | each (even : Bool) (tags : List Tag)

variable {α : Type} [Scalar α] {n : Nat}

def invalid {β : Type} (why : BoundsDefect α) : Except (Fault α) β := .error (.invalid (.bounds why))

/-- Bounds with the limits and kinds as they are, provided that no lower limit exceeds the upper one. -/
def make (b : Box α n) (kinds : Vector Kind n) : Except (Fault α) (Bounds α n) :=
  if b.lower.any Limit.unordered || b.upper.any Limit.unordered then invalid .unordered
  else
    match (List.finRange n).find? fun i => (b.upper.get i).less (b.lower.get i) with
    | some i => invalid (.crossed i (b.lower.get i) (b.upper.get i))
    | none => .ok { b with kinds }

def Side.rows? : Side α → Except (Fault α) (Option Nat)
  | .absent | .same _ => .ok none
  | .each k _ => .ok (some k)
  | .uneven => .error (.misread .malformed)
  | .unreadable k _ => .ok k

def Tags.rows? : Tags → Except (Fault α) (Option Nat)
  | .absent | .single | .spelled _ => .ok none
  | .each even tags => if even then .ok (some tags.length) else .error (.misread .malformed)

/-- The first of the tags and the two sides that tells the dimension. -/
def dimension (lower upper : Side α) (tags : Tags) : Except (Fault α) Nat :=
  tags.rows?.bind fun
    | some n => .ok n
    | none => lower.rows?.bind fun
      | some n => .ok n
      | none => upper.rows?.bind fun
        | some n => .ok n
        | none => invalid .dimensionless

/-- A limit for each coordinate; without one it is `fill`. -/
def Side.resolve (name : String) (fill : Limit α) (n : Nat) : Side α → Except (Fault α) (Vector (Limit α) n)
  | .absent => .ok (.replicate n fill)
  | .same l => .ok (.replicate n l)
  | .each _ limits =>
      match Vec.ofList? n limits with
      | some v => .ok v
      | none => invalid (.sideLength name limits.length (.whole n))
  | .uneven => .error (.misread .malformed)
  | .unreadable _ why => .error (.misread why)

def Tag.resolve : Tag → Except (Fault α) Kind
  | .kind k => .ok k
  | .unknown given => invalid (.unknownTag given)
  | .unreadable why => .error (.misread why)

def resolveAll (n : Nat) (tags : List Tag) : Except (Fault α) (Vector Kind n) :=
  match Vec.ofList? n tags with
  | some v => v.mapM Tag.resolve
  | none => invalid (.tagCount tags.length (.whole n))

/-- The limits that count and the kinds. With tags the tag decides, and a limit that counts has to be finite;
without tags the finite limits are the ones that count. -/
def settle (lower upper : Vector (Limit α) n) (tags : Tags) : Except (Fault α) (Box α n × Vector Kind n) :=
  let tagged (tags : List Tag) : Except (Fault α) (Box α n × Vector Kind n) :=
    (resolveAll n tags).bind fun kinds =>
      if activeFinite kinds lower upper then .ok (relaxed kinds lower upper, kinds) else invalid .infinite
  match tags with
  | .absent => .ok ({ lower, upper }, lower.zipWith Kind.ofLimits upper)
  | .single => .error (.misread .unfit)
  | .spelled tags => tagged tags
  | .each _ tags => tagged tags

def ofSides (n : Nat) (lower upper : Side α) (tags : Tags) : Except (Fault α) (Bounds α n) :=
  (lower.resolve "lower" .negInf n).bind fun lo =>
    (upper.resolve "upper" .posInf n).bind fun hi =>
      (settle lo hi tags).bind fun (b, kinds) =>
        if b.lower.any (· matches .posInf) || b.upper.any (· matches .negInf) then invalid .emptyBox
        else make b kinds

/-- What a dimension leads to that no list has and no single limit can be repeated to. -/
def Side.refuse (n : Int) (why : Fault α) : Side α → Fault α
  | .each _ limits => .invalid (.bounds (.sideLength "lower" limits.length (.whole n)))
  | .unreadable _ why => .misread why
  | .uneven => .misread .malformed
  | .absent | .same _ => why

def fromArrays (lower upper : Side α) (tags : Tags) (dimension? : Option Int) :
    Except (Fault α) ((n : Nat) × Bounds α n) :=
  match dimension? with
  | some n =>
      match Fault.checkRoom n with
      | .ok () => (ofSides n.toNat lower upper tags).map (Sigma.mk _)
      | .error why => .error (lower.refuse n why)
  | none => (dimension lower upper tags).bind fun n => (ofSides n lower upper tags).map (Sigma.mk n)

def freeOf (n : Int) : Except (Fault α) ((n : Nat) × Bounds α n) :=
  (Fault.checkRoom n).map fun _ => ⟨n.toNat, free n.toNat⟩

def ofLists (lower upper : List (Limit α)) (kinds : List Kind) : Except (Fault α) ((n : Nat) × Bounds α n) :=
  match Vec.ofList? kinds.length lower, Vec.ofList? kinds.length upper with
  | some l, some u => (make { lower := l, upper := u } (Vec.ofList kinds)).map (Sigma.mk _)
  | _, _ => invalid .lengths

end Bounds

/-! Limits and kinds as a client writes them. -/

namespace Bounds

def Side.ofValue : Value → Side Float
  | .null => .absent
  | .list items =>
      match Tensor.layout (.list items) with
      | .error _ => .uneven
      | .ok t =>
          match t.entries.mapM Tensor.entry with
          | .ok entries => .each items.length (entries.map Limit.ofScalar)
          | .error why => .unreadable (some items.length) why.misread
  | v =>
      match v.number with
      | .ok a => .same (.ofScalar a)
      | .error why => .unreadable none why

/-- A name in any case with blanks around it, or a code without its fraction. -/
def Tag.ofValue : Value → Tag
  | .text s =>
      match Kind.ofName? (Text.upper (Text.strip s)) with
      | some k => .kind k
      | none => .unknown (.text s)
  | v =>
      match v.integer with
      | .ok i => match Kind.ofCode i with
        | .other _ => .unknown v
        | k => .kind k
      | .error .malformed => .unknown v
      | .error why => .unreadable why

def Tags.ofValue : Value → Tags
  | .null => .absent
  | .list items => .each (Tensor.isEven (.list items)) (items.map Tag.ofValue)
  | .text s => .spelled (s.toList.map fun c => Tag.ofValue (.text (String.singleton c)))
  | .table fields => .spelled (fields.map fun f => Tag.ofValue (.text f.1))
  | _ => .single

def Tags.count? : Tags → Except Misread (Option Nat)
  | .absent => .ok none
  | .single => .error .unfit
  | .spelled tags => .ok (some tags.length)
  | .each _ tags => .ok (some tags.length)

/-! A dimension that is no count: flags and numbers are compared with the lengths, and a list repeats a single limit
once for each place of an array with these lengths. -/

def length : Value → Except Misread Int
  | .whole i => .ok i
  | _ => .error .unfit

def room : Value → Except (Fault Float) (List Nat)
  | .whole i => (Fault.checkRoom i).map fun _ => [i.toNat]
  | .text s => if s.isEmpty then .ok [] else Fault.unfit
  | .list items => do
      let lengths ← items.mapM fun v => Fault.liftMisread (length v)
      if lengths.any fun (i : Int) => i < 0 || Fault.maxEntries ≤ i then .error (.misread .malformed)
      else
        let shape := lengths.map Int.toNat
        (Fault.checkRoom (Tensor.room shape)).map fun _ => shape
  | .null | .flag _ | .real _ | .table _ | .bounds _ => Fault.unfit

def Side.spread (name : String) (fill : Limit Float) (given : Value) :
    Side Float → Except (Fault Float) (List Nat × List (Limit Float))
  | .absent => (room given).map fun shape => (shape, List.replicate (Tensor.room shape) fill)
  | .same l => (room given).map fun shape => (shape, List.replicate (Tensor.room shape) l)
  | .each _ limits =>
      if given.isWhole limits.length then .ok ([limits.length], limits)
      else invalid (.sideLength name limits.length given)
  | .uneven => .error (.misread .malformed)
  | .unreadable _ why => .error (.misread why)

def Tags.checkCount (tags : Tags) (given : Value) : Except (Fault Float) Unit :=
  (Fault.liftMisread tags.count?).bind fun
    | some k => if given.isWhole k then .ok () else invalid (.tagCount k given)
    | none => .ok ()

/-- Bounds of two sides with such lengths, which have to be a single one after all. -/
def ofRow (shape shape' : List Nat) (lower upper : List (Limit Float)) (tags : Tags) :
    Except (Fault Float) ((n : Nat) × Bounds Float n) :=
  match shape with
  | [n] =>
      if shape' = [n] then (ofSides n (.each n lower) (.each n upper) tags).map (Sigma.mk n) else invalid .lengths
  | _ =>
      if lower.any (· matches .posInf) || upper.any (· matches .negInf) then invalid .emptyBox else invalid .lengths

/-- Bounds of a dimension that is no count. -/
def fitted (lower upper : Side Float) (tags : Tags) (given : Value) :
    Except (Fault Float) ((n : Nat) × Bounds Float n) :=
  (lower.spread "lower" .negInf given).bind fun (shape, lo) =>
    (upper.spread "upper" .posInf given).bind fun (shape', hi) =>
      (tags.checkCount given).bind fun _ => ofRow shape shape' lo hi tags

def read (lower upper tags dimension : Value) : Except (Fault Float) ((n : Nat) × Bounds Float n) :=
  match dimension with
  | .null => fromArrays (.ofValue lower) (.ofValue upper) (.ofValue tags) none
  | .whole i => fromArrays (.ofValue lower) (.ofValue upper) (.ofValue tags) (some i)
  | v => fitted (.ofValue lower) (.ofValue upper) (.ofValue tags) v

def readFree (dimension : Value) : Except (Fault Float) ((n : Nat) × Bounds Float n) :=
  (room dimension).bind fun
    | [n] => freeOf n
    | _ => invalid .lengths

/-- A code without its fraction, which has to fit a byte. -/
def codeOf (v : Value) : Except Misread Int :=
  v.integer.bind fun i => if -0x80 ≤ i && i < 0x80 then .ok i else .error .unbounded

def codesOf (kinds : Value) : Except Misread (Tensor Int) :=
  match Tensor.layout kinds with
  | .error why => .error why.misread
  | .ok t => (t.entries.mapM codeOf).map fun codes => ⟨t.shape, codes⟩

/-- Limits and kinds as they are, the kinds as codes. The codes may stand in rows. -/
def readDirect (lower upper kinds : Value) : Except (Fault Float) ((n : Nat) × Bounds Float n) := do
  let lo ← Fault.liftUnreadable (Tensor.read lower)
  let hi ← Fault.liftUnreadable (Tensor.read upper)
  let codes := (← Fault.liftMisread (codesOf kinds)).entries
  if lo.shape != [codes.length] || hi.shape != [codes.length] then invalid .lengths
  else ofLists (lo.entries.map .ofScalar) (hi.entries.map .ofScalar) (codes.map .ofCode)

end Bounds

end BoxBfgs
