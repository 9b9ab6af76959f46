namespace BoxBfgs.Text

def endsLine (c : Char) : Bool :=
  let k := c.toNat
  (10 ≤ k && k ≤ 13) || (28 ≤ k && k ≤ 30) || k == 0x85 || k == 0x2028 || k == 0x2029

/-- The lines of a text behind the characters `seen` of its first line, listed backwards. A return and a feed behind
it are one end, and nothing behind the last end is no line. -/
def linesFrom : List Char → List Char → List (List Char)
  | [], [] => []
  | seen, [] => [seen.reverse]
  | seen, '\r' :: '\n' :: cs => seen.reverse :: linesFrom [] cs
  | seen, c :: cs => if endsLine c then seen.reverse :: linesFrom [] cs else linesFrom (c :: seen) cs

def lines (s : String) : List String := (linesFrom [] s.toList).map String.ofList

end BoxBfgs.Text
