import BoxBfgs.Value

namespace BoxBfgs.Value

def fields : Value → List (String × Value)
  | .table fields => fields
  | _ => []

def items : Value → List Value
  | .list items => items
  | _ => []

def at? (v : Value) (name : String) : Option Value := field? v.fields name

def field (v : Value) (name : String) : Value := (v.at? name).getD .null

def item (v : Value) (i : Nat) : Value := v.items.getD i .null

/-- What can be gone through one by one: the items of a list, the names of a table, the characters of a text. -/
def spread : Value → Except Misread (List Value)
  | .list items => .ok items
  | .table fields => .ok (fields.map fun f => .text f.1)
  | .text s => .ok (s.toList.map fun c => .text (String.singleton c))
  | .null | .flag _ | .whole _ | .real _ | .bounds _ => .error .unfit

def asText : Value → String
  | .text s => s
  | _ => ""

def asInt : Value → Int
  | .whole i => i
  | .real a => (truncate a).toOption.getD 0
  | .flag b => if b then 1 else 0
  | _ => 0

def asNat (v : Value) : Nat := v.asInt.toNat

/-- Whether the value is a flag or a number equal to an integer. -/
def isWhole (v : Value) (i : Int) : Bool :=
  match v with
  | .flag b => (b.toNat : Int) == i
  | .whole k => k == i
  | .real a => (truncate a).toOption == some i && Float.ofInt i == a
  | .null | .text _ | .list _ | .table _ | .bounds _ => false

/-- A flag or a number in the middle of a computation, where a text is no number. -/
def operand : Value → Except Misread Float
  | .text _ => .error .unfit
  | v => v.number

/-- Whether two flags or numbers are equal. -/
def equals (v w : Value) : Bool :=
  match w with
  | .flag b => v.isWhole b.toNat
  | .whole i => v.isWhole i
  | _ =>
      match v.comparable, w.comparable with
      | .ok a, .ok b => a == b
      | _, _ => false

end BoxBfgs.Value
