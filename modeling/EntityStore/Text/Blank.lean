/-!
White space, and texts taken apart from the left.
-/

namespace EntityStore.Text

/-- The 25 white-space characters. -/
def isBlank (c : Char) : Bool :=
  let n := c.toNat
  (0x9 ≤ n && n ≤ 0xD) || n == 0x20 || n == 0x85 || n == 0xA0 || n == 0x1680 ||
    (0x2000 ≤ n && n ≤ 0x200A) || n == 0x2028 || n == 0x2029 || n == 0x202F || n == 0x205F ||
    n == 0x3000

/-- The text without its leading white space. -/
def skipBlanks (s : List Char) : List Char := s.dropWhile isBlank

/-- The letters A to Z in lower case, everything else as it is. -/
def asciiLower (s : String) : List Char := s.toList.map Char.toLower

end EntityStore.Text
