import BoxBfgs.Checked.Bounds
import BoxBfgs.Memory
import BoxBfgs.Text.Blank

namespace BoxBfgs

namespace Debug

variable {α : Type} [Scalar α]

def checkFinite (name : String) (entries : List α) : Except (Fault α) Unit :=
  if entries.all Scalar.isFinite then .ok () else .error (.unmet (.finite name))

def checkModel {n : Nat} (m : Memory α n) : Except (Fault α) Unit :=
  if !decide (0 < m.theta) then .error (.unmet (.scaling m.theta))
  else
    match (List.finRange m.size).find? fun i => !decide (0 < Vec.dot (m.pairs.get i).s (m.pairs.get i).y) with
    | some i => .error (.unmet (.curvature i))
    | none => .ok ()

def checkAdmissible {n : Nat} (m : Memory α n) : Except (Fault α) Unit :=
  if m.depth < m.size then .error (.unmet (.room m.size (.whole m.depth))) else checkModel m

def switchesOn (setting : String) : Bool :=
  ["1", "true", "yes", "on"].contains (String.ofList ((Text.strip setting).toList.map Char.toLower))

/-- What a setting does to the checks. It has to be a text, which no null character can stand in. -/
def readSetting : Value → Except (Fault α) Bool
  | .text s => if s.toList.contains (Char.ofNat 0) then .error (.misread .malformed) else .ok (switchesOn s)
  | _ => .error (.misread .unfit)

end Debug

end BoxBfgs
