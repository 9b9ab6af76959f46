namespace BoxBfgs.Text

def isSpace (c : Char) : Bool :=
  let k := c.toNat
  (9 ≤ k && k ≤ 13) || k == 32 || k == 0x85 || k == 0xa0 || k == 0x1680 || (0x2000 ≤ k && k ≤ 0x200a) ||
    k == 0x2028 || k == 0x2029 || k == 0x202f || k == 0x205f || k == 0x3000

def isBlank (c : Char) : Bool := isSpace c || (28 ≤ c.toNat && c.toNat ≤ 31)

/-- The characters without those at both ends that the test holds for. -/
def trimmed (test : Char → Bool) (cs : List Char) : List Char :=
  ((cs.dropWhile test).reverse.dropWhile test).reverse

def strip (s : String) : String := String.ofList (trimmed isBlank s.toList)

/-- The capitals of a letter, as far as they are ASCII: the sharp s and the ligatures have two or three, the dotless
i and the long s one. A character with other capitals stays, which no name here contains. -/
def capitals (c : Char) : List Char :=
  match c.toNat with
  | 0xdf => ['S', 'S']
  | 0x131 => ['I']
  | 0x17f => ['S']
  | 0xfb00 => ['F', 'F']
  | 0xfb01 => ['F', 'I']
  | 0xfb02 => ['F', 'L']
  | 0xfb03 => ['F', 'F', 'I']
  | 0xfb04 => ['F', 'F', 'L']
  | 0xfb05 => ['S', 'T']
  | 0xfb06 => ['S', 'T']
  | _ => [c.toUpper]

def upper (s : String) : String := String.ofList (s.toList.flatMap capitals)

end BoxBfgs.Text
