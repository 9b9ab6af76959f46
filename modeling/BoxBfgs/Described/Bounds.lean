import BoxBfgs.Bounds.Making
import BoxBfgs.Options
import BoxBfgs.Store

namespace BoxBfgs

/-- Bounds as a table describes them: without limits in so many coordinates, with limits and kinds as they are, or with
limits and tags that the bounds are made of. -/
def Bounds.ofTable (v : Value) : Except (Fault Float) ((n : Nat) × Bounds Float n) :=
  match (v.field "how").asText with
  | "free" => Bounds.readFree (v.field "n")
  | "direct" => Bounds.readDirect (v.field "lower") (v.field "upper") (v.field "kinds")
  | _ => Bounds.read (v.field "lower") (v.field "upper") (v.field "kinds") (v.field "n")

/-- The codes of the kinds. Those that were given as they are keep the lists in which they were given. -/
def Bounds.codesOfTable (v : Value) {n : Nat} (b : Bounds Float n) : Tensor Int :=
  let codes := b.kinds.toList.map Kind.code
  match (v.field "how").asText, Bounds.codesOf (v.field "kinds") with
  | "direct", .ok t => ⟨t.shape, codes⟩
  | _, _ => .ofList codes

/-- The names of the kinds, which have to stand in one list and to have a meaning each. -/
def Bounds.namesOfCodes (codes : Tensor Int) : Except (Fault Float) (List String) :=
  if codes.rank = 1 then Fault.orElse .unknown (codes.entries.mapM fun k => (Kind.ofCode k).name?) else Fault.unfit

def Options.fieldsOfTable (fields : List (String × Value)) : Except (Fault Float) (List (String × Value)) :=
  fields.mapM fun (name, v) =>
    if name == "bounds" && (v.at? "how").isSome then (Bounds.ofTable v).map fun b => (name, .bounds b.2)
    else .ok (name, v)

def Tensor.ofValue (v : Value) : Except (Fault Float) (Tensor Float) := Fault.liftUnreadable (Tensor.read v)

def Tensor.ofOperands (v : Value) : Except Misread (Tensor Float) :=
  match Tensor.layout v with
  | .ok t => (t.entries.mapM Value.operand).map fun entries => ⟨t.shape, entries⟩
  | .error why => .error why.misread

/-- The numbers in the lists of a value, between other lengths if there are any. -/
def Tensor.ofShaped (v : Value) (shape? : Option Value) : Except (Fault Float) (Tensor Float) := do
  let t ← Tensor.ofValue v
  match shape? with
  | none => return t
  | some shape =>
      let lengths ← Fault.liftMisread (match shape with
        | .list items => items.mapM Bounds.length
        | k => (Bounds.length k).map fun k => [k])
      Fault.fitting (t.reshape? lengths)

def Store.ofTable (n v : Value) : Except (Fault Float) (Store Float) := Store.make n ((v.at? "depth").getD (.whole 5))

def Tensor.pairOf (v : Value) : Except (Fault Float) (Tensor Float × Tensor Float) := do
  match ← Fault.liftMisread v.spread with
  | [s, y] => return (← Tensor.ofValue s, ← Tensor.ofValue y)
  | _ => .error .mismatch

/-- A memory onto which the pairs of its description were pushed, and what became of each pair. -/
def Store.filled (n v : Value) : Except (Fault Float) (List Bool × Store Float) := do
  let m ← Store.ofTable n v
  m.pushAll (← (← Fault.liftMisread ((v.at? "pairs").getD (.list [])).spread).mapM Tensor.pairOf)

end BoxBfgs
