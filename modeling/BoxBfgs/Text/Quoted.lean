import BoxBfgs.Text.Hidden

namespace BoxBfgs.Text

/-- The lowest `width` hexadecimal digits, and the others if there are any. -/
def hex (width n : Nat) : List Char :=
  let ds := Nat.toDigits 16 n
  List.replicate (width - ds.length) '0' ++ ds

/-- A character by its number, with two, four or eight digits. -/
def numbered (c : Char) : List Char :=
  if c.toNat < 256 then '\\' :: 'x' :: hex 2 c.toNat
  else if c.toNat < 65536 then '\\' :: 'u' :: hex 4 c.toNat
  else '\\' :: 'U' :: hex 8 c.toNat

def escape (q c : Char) : List Char :=
  if c == q || c == '\\' then ['\\', c]
  else if c == '\n' then ['\\', 'n']
  else if c == '\r' then ['\\', 'r']
  else if c == '\t' then ['\\', 't']
  else if isHidden c then numbered c
  else [c]

/-- The text between single quotes, or between double quotes if only single ones occur in it. -/
def quote (s : String) : String :=
  let cs := s.toList
  let q := if cs.contains '\'' && !cs.contains '"' then '"' else '\''
  String.ofList (q :: cs.flatMap (escape q) ++ [q])

def asciiOnly (s : String) : String := String.ofList (s.toList.flatMap fun c => if c.toNat < 128 then [c] else numbered c)

end BoxBfgs.Text
