import RubyIndex.Text.Blank
import RubyIndex.Text.Find
/-!
Comments and the documentation that they make. The comment lines that stand directly above a
declaration document it. Magic comments, on the first two lines of a file, document nothing.
-/

namespace RubyIndex.Documentation

/-- A comment line without its `#` and one space after it. Further indentation stays. -/
def stripMarker (line : List Char) : List Char :=
  match (Text.trimLeft line).drop 1 with
  | ' ' :: rest => rest
  | rest => rest

/-- The documentation that comment lines make: blanks at the end of each line and empty lines
around the whole are left out, and nothing may remain. -/
def join (comments : List (List Char)) : Option String :=
  let whole := ['\n'].intercalate (comments.map Text.trimRight)
  let inner := Text.trimSet (· == '\n') whole
  if inner.isEmpty then none else some (String.ofList inner)

def magicNames : List String :=
  ["frozen_string_literal", "encoding", "coding", "warn_indent", "warn_past_scope",
    "shareable_constant_value"]

/-- Whether a character is a lower-case letter or the same letter in another case. The dotted and
the dotless i and the long s count as cases of `i` and `s`. -/
def sameLetter (letter c : Char) : Bool :=
  c == letter || c.toLower == letter || (letter == 'i' && (c == 'İ' || c == 'ı')) ||
    (letter == 's' && c == 'ſ')

def dropWord? : (word s : List Char) → Option (List Char)
  | [], s => some s
  | _ :: _, [] => none
  | letter :: word, c :: s => if sameLetter letter c then dropWord? word s else none

def startsValue (s : List Char) : Bool := (Text.trimLeft s).head? == some ':'

/-- Whether a trimmed line, which begins with `#`, sets something: `# name: value`, or anything
between `-*-` and `-*-`. -/
def isMagic (comment : List Char) : Bool :=
  let body := Text.trimLeft (comment.drop 1)
  let mark := ['-', '*', '-']
  (match mark.isPrefixOf? body with
    | some rest => Text.occursIn mark rest
    | none => false) ||
  magicNames.any fun name => (dropWord? name.toList body).any startsValue

end RubyIndex.Documentation
