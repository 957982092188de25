/-!
The lines of a text. A line ends at a line feed, a carriage return, both together, a vertical
tab, a form feed, a file, group or record separator, a next-line control, or a Unicode line or
paragraph separator. The end of the last line may be missing.
-/

namespace RubyIndex.Text

def isLineEnd (c : Char) : Bool :=
  let n := c.toNat
  (10 ≤ n && n ≤ 13) || (28 ≤ n && n ≤ 30) || n == 0x85 || n == 0x2028 || n == 0x2029

/-- The lines of a text that continues the line `current`, which is given backwards. -/
def linesAfter (current : List Char) : List Char → List (List Char)
  | [] => if current.isEmpty then [] else [current.reverse]
  | '\r' :: '\n' :: rest => current.reverse :: linesAfter [] rest
  | c :: rest =>
    if isLineEnd c then current.reverse :: linesAfter [] rest
    else linesAfter (c :: current) rest

def lines (s : List Char) : List (List Char) := linesAfter [] s

/-- The text with a line feed alone where a carriage return stands before it. -/
def dropReturns : List Char → List Char
  | [] => []
  | '\r' :: '\n' :: rest => '\n' :: dropReturns rest
  | c :: rest => c :: dropReturns rest

end RubyIndex.Text
