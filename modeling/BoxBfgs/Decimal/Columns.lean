import BoxBfgs.Decimal.Shortest
import BoxBfgs.Tensor.Basic

namespace BoxBfgs.Decimal

/-- A number cut up for a column: its sign and the digits before the point, those behind it, and the exponent. -/
structure Cells where
  whole : List Char
  fraction : List Char
  exponent : List Char
deriving DecidableEq, Repr

def columnPlaces : Nat := 8

def signChars (a : Float) : List Char := if Binary.negative a then ['-'] else []

/-- The digits that read back, or if more than eight stand behind the point the exact value rounded there. -/
def positionalCells (a : Float) : Cells :=
  match Binary.ofFloat? a with
  | none => ⟨[], [], []⟩
  | some b =>
      let s := shortest b
      let n : Number :=
        if s.exponent < -(columnPlaces : Int) then
          let (num, den) := b.quotient
          ⟨roundDiv (num * Nat.pow 10 columnPlaces) den, -columnPlaces⟩
        else s
      let places := if n.exponent < 0 then n.exponent.natAbs else 0
      let ds := digits (if n.exponent < 0 then n.coefficient else n.coefficient * Nat.pow 10 n.exponent.natAbs)
      let padded := List.replicate (places + 1 - ds.length) '0' ++ ds
      ⟨signChars a ++ padded.take (padded.length - places), dropZeros (padded.drop (padded.length - places)), []⟩

/-- One digit before the point and `places` behind it. They are the digits that read back if there are just as many of
those, and the exact value rounded otherwise. -/
def scientificCells (places : Nat) (a : Float) : Cells :=
  match Binary.ofFloat? a with
  | none => ⟨[], [], []⟩
  | some b =>
      if b.mantissa = 0 then ⟨signChars a ++ ['0'], List.replicate places '0', "+00".toList⟩
      else
        let s := shortest b
        let (num, den) := b.quotient
        let n := if (digits s.coefficient).length = places + 1 then s else significant num den places
        let ds := digits n.coefficient
        ⟨signChars a ++ ds.take 1, ds.drop 1, (exponentText (n.exponent + ds.length - 1)).toList⟩

/-- The digits that read back, with one of them before the point; of more than eight behind it the exact value is rounded
there. -/
def shortestCells (a : Float) : Cells :=
  let count := match Binary.ofFloat? a with
    | some b => (digits (shortest b).coefficient).length
    | none => 0
  let c := scientificCells (min columnPlaces (count - 1)) a
  { c with fraction := dropZeros c.fraction }

/-- Whether the numbers other than zero are too large, too small or too far apart for a positional column. -/
def needsExponent (finite : List Float) : Bool :=
  match (finite.map Float.abs).filter (· != 0.0) with
  | [] => false
  | a :: rest =>
      let high := rest.foldl (fun m b => if m < b then b else m) a
      let low := rest.foldl (fun m b => if b < m then b else m) a
      high ≥ 100000000.0 || low < 0.0001 || high / low > 1000.0

def longest (lists : List (List Char)) : Nat := lists.foldl (fun m l => max m l.length) 0

def left (width : Nat) (cs : List Char) : List Char := List.replicate (width - cs.length) ' ' ++ cs

def right (fill : Char) (width : Nat) (cs : List Char) : List Char := cs ++ List.replicate (width - cs.length) fill

/-- How the numbers of a column are written: with an exponent of so many digits or without one, and how many characters
stand before and behind the point. -/
structure Column where
  exponent : Option Nat
  front : Nat
  fraction : Nat
deriving DecidableEq, Repr

namespace Column

/-- How many characters stand behind the point, with the exponent and its letter and sign. -/
def behind (c : Column) : Nat := c.fraction + match c.exponent with
  | some digits => digits + 2
  | none => 0

def of (numbers : List Float) : Column :=
  let finite := numbers.filter Float.isFinite
  let scientific := needsExponent finite
  let cells := finite.map fun a => if scientific then shortestCells a else positionalCells a
  let c : Column := {
    exponent := if scientific then some (longest (cells.map fun c => c.exponent.drop 1)) else none
    front := longest (cells.map Cells.whole)
    fraction := longest (cells.map Cells.fraction) }
  let specials := (numbers.filter fun a => !a.isFinite).map fun a => ((special? a).getD "").length - (c.behind + 1)
  { c with front := specials.foldl max c.front }

def write (c : Column) (a : Float) : List Char :=
  match special? a, c.exponent with
  | some s, _ => left (c.front + c.behind + 1) s.toList
  | none, some digits =>
      let n := scientificCells c.fraction a
      let power := n.exponent.take 1 ++ List.replicate (digits + 1 - n.exponent.length) '0' ++ n.exponent.drop 1
      left c.front n.whole ++ '.' :: n.fraction ++ 'e' :: power
  | none, none =>
      let n := positionalCells a
      left c.front n.whole ++ '.' :: right ' ' c.fraction n.fraction

end Column

def withoutBlanks (cs : List Char) : List Char := (cs.reverse.dropWhile (· == ' ')).reverse

/-- How rows are set in brackets: what stands between two entries, how long a line may be, how far all lines but the
first one are set in, and whether long rows are cut. -/
structure Frame where
  separator : List Char
  width : Nat
  margin : Nat
  cut : Bool

namespace Frame

def edge : Nat := 3

def ends {β : Type} (middle : List β) (row : List β) : List β :=
  if row.length ≤ 2 * edge then row else row.take edge ++ middle ++ row.drop (row.length - edge)

def kept {β : Type} : List Nat → List β → List β
  | [], l => l
  | n :: inner, l => (ends [] (Tensor.parts (Tensor.room inner) n l)).flatMap (kept inner)

variable (f : Frame)

def shown (row : List (List Char)) : List (List Char) := if f.cut then ends ["...".toList] row else row

/-- Words behind those of a line that was begun, in as many lines as they need. A line that is full loses the blanks at
its end. -/
def wrapped (room : Nat) : List Char → List (List Char) → List (List Char)
  | line, [] => [line]
  | line, word :: rest =>
      let begun := line ++ f.separator
      if begun.length + word.length ≤ room then wrapped room (begun ++ word) rest
      else withoutBlanks begun :: wrapped room word rest

/-- The words in rows of the given lengths, `depth` brackets deep. The innermost rows are broken where a line is full;
the deeper the rows that two lines belong to, the fewer line ends lie between them. -/
def block : List Nat → Nat → List (List Char) → List Char
  | [], _, words => words.headD []
  | n :: inner, depth, words =>
      let blanks := List.replicate (f.margin + depth + 1) ' '
      let rows := f.shown ((Tensor.parts (Tensor.room inner) n words).map (block inner (depth + 1)))
      let body := match inner, rows with
        | [], word :: rest =>
            ('\n' :: blanks).intercalate (f.wrapped (f.width - depth - 1 - blanks.length) word rest)
        | _, _ => (withoutBlanks f.separator ++ List.replicate inner.length '\n' ++ blanks).intercalate rows
      '[' :: body ++ [']']

def text (t : Tensor Float) : String :=
  if t.entries.isEmpty then "[]"
  else
    let column := Column.of (if f.cut then kept t.shape t.entries else t.entries)
    String.ofList (f.block t.shape 0 (t.entries.map column.write))

end Frame

def mostEntries : Nat := 1000

def columns (t : Tensor Float) : String :=
  ({ separator := [' '], width := 75, margin := 0, cut := mostEntries < t.entries.length } : Frame).text t

def listing (t : Tensor Float) : String :=
  let name := "array("
  name ++ ({ separator := [',', ' '], width := 74, margin := name.length, cut := mostEntries < t.entries.length } : Frame).text t ++
    ")"

end BoxBfgs.Decimal
