/-!
White space: the characters with the Unicode property `White_Space`, and the four information
separators. Trimming removes them from an end of a text.
-/

namespace RubyIndex.Text

/-- White space that may be written in a text. -/
def isBlank (c : Char) : Bool :=
  let n := c.toNat
  (9 ≤ n && n ≤ 13) || (28 ≤ n && n ≤ 32) || n == 0x85 || n == 0xA0 || n == 0x1680 ||
    (0x2000 ≤ n && n ≤ 0x200A) || n == 0x2028 || n == 0x2029 || n == 0x202F || n == 0x205F ||
    n == 0x3000

/-- White space in the narrower sense, to which the information separators do not belong. -/
def isWhiteSpace (c : Char) : Bool := isBlank c && !(28 ≤ c.toNat && c.toNat ≤ 31)

def trimLeft (s : List Char) : List Char := s.dropWhile isBlank

def trimRight (s : List Char) : List Char := (s.reverse.dropWhile isBlank).reverse

def trim (s : List Char) : List Char := trimRight (trimLeft s)

def trimSet (set : Char → Bool) (s : List Char) : List Char :=
  ((s.dropWhile set).reverse.dropWhile set).reverse

def blankText (s : List Char) : Bool := s.all isBlank

end RubyIndex.Text
