import BoxBfgs.Fault
import BoxBfgs.Text.Blank

namespace BoxBfgs

inductive Verbosity where
  | silent
  | summary
  | iterations
  | verbose
deriving DecidableEq, Repr

namespace Verbosity

def rank : Verbosity → Nat
  | .silent => 0
  | .summary => 1
  | .iterations => 2
  | .verbose => 3

def name : Verbosity → String
  | .silent => "SILENT"
  | .summary => "SUMMARY"
  | .iterations => "ITERATIONS"
  | .verbose => "VERBOSE"

def all : List Verbosity := [.silent, .summary, .iterations, .verbose]

/-- A name in any case with blanks around it, or a rank without its fraction. -/
def read {α : Type} (v : Value) : Except (Fault α) Verbosity :=
  let unknown : Except (Fault α) Verbosity := .error (.invalid (.option (.printing v)))
  match v with
  | .text s =>
      match all.find? fun p => p.name == Text.upper (Text.strip s) with
      | some p => .ok p
      | none => unknown
  | v =>
      match v.integer with
      | .ok i =>
          match all.find? fun p => (p.rank : Int) == i with
          | some p => .ok p
          | none => unknown
      | .error .malformed => unknown
      | .error why => .error (.misread why)

/-- The level of the records that have to be let through; a silent solver asks for none. -/
def level? : Verbosity → Option Int
  | .silent => none
  | .summary | .iterations => some 20
  | .verbose => some 10

end Verbosity

end BoxBfgs
