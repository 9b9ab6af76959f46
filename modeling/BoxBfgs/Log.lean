import BoxBfgs.Fault
import BoxBfgs.Text.Blank
import BoxBfgs.Text.Lines
import BoxBfgs.Text.Percent

namespace BoxBfgs

/-- How much a record matters, or a record has to matter: a number, or a flag that stands for one. -/
inductive Level where
  | number (i : Int)
  | flag (b : Bool)
deriving DecidableEq, Repr

namespace Level

instance instOfNat (n : Nat) : OfNat Level n := ⟨.number n⟩

def value : Level → Int
  | .number i => i
  | .flag b => if b then 1 else 0

def given : Level → Value
  | .number i => .whole i
  | .flag b => .flag b

def ofValue? : Value → Option Level
  | .whole i => some (.number i)
  | .flag b => some (.flag b)
  | _ => none

def above (l m : Level) : Bool := l.value > m.value

def name (l : Level) : String :=
  match l.value with
  | 0 => "NOTSET"
  | 10 => "DEBUG"
  | 20 => "INFO"
  | 30 => "WARNING"
  | 40 => "ERROR"
  | 50 => "CRITICAL"
  | _ => "Level " ++ l.given.shown

end Level

/-- What a name stands for where a level is wanted: two of them mean a format and a table of formats. -/
inductive Named where
  | level (l : Level)
  | format
  | table
deriving DecidableEq, Repr

namespace Named

/-- What a name in capitals stands for; one that stands for nothing is a warning. -/
def ofName (name : String) : Named :=
  match name with
  | "NOTSET" => .level 0
  | "DEBUG" => .level 10
  | "INFO" => .level 20
  | "ERROR" => .level 40
  | "CRITICAL" | "FATAL" => .level 50
  | "BASIC_FORMAT" => .format
  | "_STYLES" => .table
  | _ => .level 30

/-- A name in any case, or a number without its fraction. -/
def read {α : Type} : Value → Except (Fault α) Named
  | .text s => .ok (ofName (Text.upper s))
  | v => (Fault.liftMisread v.integer).map fun i => .level (.number i)

def level? {α : Type} : Named → Except (Fault α) Level
  | .level l => .ok l
  | .format => .error .unknown
  | .table => .error (.misread .unfit)

end Named

/-- Where a handler writes: to the stream it was given, to the error output, or to an error output from before that
nobody reads any more. -/
inductive Sink where
  | stream
  | errors
  | unread
deriving DecidableEq, Repr

/-- Writes the records of its level and above. Handlers are told apart by `id`. -/
structure Handler where
  id : Nat
  level : Level
  format : String
  sink : Sink
deriving DecidableEq, Repr

structure Logger where
  name : String
  level : Level
  propagates : Bool := true
  handlers : List Handler := []
deriving DecidableEq, Repr

structure Line (μ : Type) where
  sink : Sink
  format : String
  level : Level
  logger : String
  message : μ

/-- The loggers in the order of their creation, the level of the next one, and what was written. -/
structure Log (μ : Type) where
  loggers : List Logger := []
  level : Level := 30
  fresh : Nat := 0
  lines : List (Line μ) := []

/-- What a client writes to the log: a text as it was given with its arguments, and what the two come to. -/
structure Entry where
  text : Value
  arguments : List Value
  message : String

namespace Entry

def make? (text : Value) (arguments : List Value) : Option Entry :=
  (Text.format? text.shown arguments).map fun message => { text, arguments, message }

/-- Arguments in parentheses, a single one followed by a comma. -/
def argumentsText : List Value → String
  | [v] => "(" ++ v.quoted ++ ",)"
  | args => "(" ++ Value.commaSeparated (args.map Value.quoted) ++ ")"

/-- The parts of an entry that a format can name. A table that is the only argument stands for all of them. -/
def parts (e : Entry) : List (String × Value) :=
  let args : Value := match e.arguments with
    | [.table (f :: fields)] => .table (f :: fields)
    | args => .text (argumentsText args)
  [("msg", e.text), ("args", args), ("message", .text e.message)]

end Entry

namespace Log

def packageName : String := "lbfgsb"

def standardFormat : String := "[%(levelname)s] %(name)s: %(message)s"

/-- Every logger is the package's own or lies below it. -/
def fullName (name : Option String) : String :=
  match name with
  | none => packageName
  | some s => if s == packageName || s.startsWith (packageName ++ ".") then s else packageName ++ "." ++ s

/-- A format as a client writes it, with a place for a name in it; nothing stands for the standard format. -/
def readFormat {α : Type} (v : Value) : Except (Fault α) String :=
  if !v.holds then .ok standardFormat
  else
    match v with
    | .text s => if Text.hasNamed s.toList then .ok s else .error .unknown
    | _ => .error (.misread .unfit)

variable {μ : Type} (l : Log μ)

def find? (name : String) : Option Logger := l.loggers.find? fun g => g.name == name

/-- The logger of a name. A new one gets the level that was set last, and one handler. -/
def getAt (sink : Sink) (name : Option String) : Logger × Log μ :=
  let full := fullName name
  match l.find? full with
  | some g => (g, l)
  | none =>
      let g : Logger := {
        name := full
        level := l.level
        propagates := false
        handlers := [{ id := l.fresh, level := l.level, format := standardFormat, sink }] }
      (g, { l with loggers := l.loggers ++ [g], fresh := l.fresh + 1 })

/-- The logger of a name; a new one writes to the error output. -/
def get (name : Option String) : Logger × Log μ := l.getAt .errors name

def setLevel (level : Level) : Log μ :=
  { l with
    level
    loggers := l.loggers.map fun g =>
      { g with level, handlers := g.handlers.map fun h => { h with level } } }

/-- The same loggers with a level and one new handler each in place of those they have. -/
def rehandle (level : Level) (format : String) (sink : Sink) : List Logger → Nat → List Logger × Nat
  | [], fresh => ([], fresh)
  | g :: rest, fresh =>
      let (rest, next) := rehandle level format sink rest (fresh + 1)
      ({ g with level, handlers := [{ id := fresh, level, format, sink }] } :: rest, next)

def configure (level : Level) (format : String) (sink : Sink) : Log μ :=
  let (loggers, fresh) := rehandle level format sink l.loggers l.fresh
  { l with level, loggers, fresh }

/-- What stands before the dots of a name, the longest first, the name and its parts being read backwards. Of dots side by
side only every second one counts, from the last one on. -/
def heads : List Char → List (List Char)
  | '.' :: c :: rest => (c :: rest) :: heads rest
  | _ :: rest => heads rest
  | [] => []

def above (name : String) : List String := (heads name.toList.reverse).map fun cs => String.ofList cs.reverse

def parent? (g : Logger) : Option Logger := (above g.name).findSome? l.find?

/-- A logger and those above it, the nearest first, no more than `fuel` of them. -/
def lineage (g : Logger) : (fuel : Nat) → List Logger
  | 0 => []
  | fuel + 1 =>
      g :: match l.parent? g with
        | some p => lineage p fuel
        | none => []

/-- The level of a logger, or if that is zero of the nearest logger above it with another level. -/
def effective (g : Logger) : Level :=
  (((l.lineage g (l.loggers.length + 1)).map Logger.level).find? fun level => level.value ≠ 0).getD 30

def emit (name : String) (level : Level) (message : μ) : Log μ :=
  match l.find? name with
  | none => l
  | some g =>
      if level.value > 0 && !(l.effective g).above level then
        let out := (g.handlers.filter fun h => !h.level.above level).map fun h =>
          { sink := h.sink, format := h.format, level, logger := name, message := message : Line μ }
        { l with lines := l.lines ++ out }
      else l

structure Saved where
  logger : String
  level : Level
  handlers : List (Nat × Level)

/-- Lowers a logger and its handlers to a level; those that are lower stay. -/
def lowered (name : String) (level : Level) : Log μ :=
  match l.find? name with
  | none => l
  | some g =>
      let own := if (l.effective g).above level then level else g.level
      let handlers := g.handlers.map fun h => if h.level.above level then { h with level } else h
      { l with loggers := l.loggers.map fun k => if k.name == name then { k with level := own, handlers } else k }

def save? (name : String) : Option Saved :=
  (l.find? name).map fun g => { logger := name, level := g.level, handlers := g.handlers.map fun h => (h.id, h.level) }

/-- Gives a logger the levels it had; a handler that it got in the meantime keeps its own. -/
def restored (s : Saved) : Log μ :=
  { l with
    loggers := l.loggers.map fun g =>
      if g.name == s.logger then
        { g with
          level := s.level
          handlers := g.handlers.map fun h =>
            match s.handlers.find? fun e => e.1 == h.id with
            | some e => { h with level := e.2 }
            | none => h }
      else g }

def within {β : Type} (name : String) (changed : Log μ) (body : Log μ → β × Log μ) : β × Log μ :=
  let (b, after) := body changed
  (b, ((l.save? name).map after.restored).getD after)

/-- Whether a logger or a handler of it has a level above a number. -/
def exceeds (name : String) (a : Float) : Bool :=
  let passes (level : Level) : Bool := Binary.compareInt? level.value a == some .gt
  (l.find? name).any fun g => passes (l.effective g) || g.handlers.any fun h => passes h.level

/-- All loggers with a level as a client writes it. -/
def readLevel {α : Type} (v : Value) : Except (Fault α) (Log μ) :=
  ((Named.read v).bind Named.level?).map l.setLevel

/-- All loggers with a level and with handlers of a format as a client writes them. A name that stands for no level is
only refused after the format. -/
def readConfigured {α : Type} (level format : Value) (sink : Sink) : Except (Fault α) (Log μ) :=
  (Named.read level).bind fun named =>
    (readFormat format).bind fun format => named.level?.map fun level => l.configure level format sink

/-- A logger lowered to a level as a client writes it. A number with a fraction is no level and only does where nothing
has to be lowered. -/
def readLowered {α : Type} (name : String) (v : Value) : Except (Fault α) (Log μ) :=
  match Level.ofValue? v, v with
  | some level, _ => .ok (l.lowered name level)
  | none, .real a => if l.exceeds name a then .error (.misread .unfit) else .ok l
  | none, _ => .error (.misread .unfit)

/-- The text of a record, if its format can be filled in. Besides its message a record has a level, a logger and the
names of where it was written, and nothing about a failure. -/
def lineText? (parts : μ → List (String × Value)) (line : Line μ) : Option String :=
  Text.fillText? line.format (.ofTable ([("levelname", .text line.level.name), ("levelno", line.level.given),
    ("name", .text line.logger), ("threadName", .text "MainThread"), ("processName", .text "MainProcess"),
    ("exc_info", .null), ("exc_text", .null), ("stack_info", .null)] ++ parts line.message))

/-- What a sink received, line by line. A record with a format that cannot be filled in is lost. -/
def received (parts : μ → List (String × Value)) (sink : Sink) : List String :=
  let texts := (l.lines.filter fun line => line.sink == sink).filterMap (lineText? parts)
  Text.lines (String.join (texts.map (· ++ "\n")))

end Log

end BoxBfgs
