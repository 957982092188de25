import RubyIndex.Documentation
import RubyIndex.Text.Lines
/-!
The lines of a stub file: blank lines, comments and statements.
-/

namespace RubyIndex

inductive Line where
  | blank
  | magic
  | comment (text : List Char)
  | code (statement : List Char)
  deriving DecidableEq, Repr

namespace Line

/-- Reads a line. Magic comments count only on the first two lines of a file. -/
def read (number : Nat) (raw : List Char) : Line :=
  match Text.trim raw with
  | [] => .blank
  | '#' :: rest =>
    if number ≤ 2 && Documentation.isMagic ('#' :: rest) then .magic
    else .comment (Documentation.stripMarker raw)
  | statement => .code statement

end Line

end RubyIndex
