import RubyIndex.Text.Blank
import RubyIndex.Text.Quoted
/-!
Splitting a parameter list at the commas that stand outside brackets and string literals. A special
global such as `$,` or `$"` is one token, so that its second character neither splits nor quotes.
-/

namespace RubyIndex.Parameter

inductive SplitFault where
  | unexpected (closer : Char)
  | unterminatedString
  | unclosed (opener : Char)
  | emptyParameter
  deriving DecidableEq, Repr

def SplitFault.reason : SplitFault → String
  | .unexpected closer => s!"Unexpected {Text.quoted closer.toString}"
  | .unterminatedString => "Unterminated string literal"
  | .unclosed opener => s!"Unclosed {Text.quoted opener.toString}"
  | .emptyParameter => "Empty parameter"

structure Unbalanced where
  parameters : String
  fault : SplitFault
  deriving DecidableEq, Repr

def Unbalanced.message (e : Unbalanced) : String :=
  s!"{e.fault.reason}: {Text.quoted e.parameters}"

def isOpener (c : Char) : Bool := c == '(' || c == '[' || c == '\x7b'

def openerOf? : Char → Option Char
  | ')' => some '('
  | ']' => some '['
  | '\x7d' => some '\x7b'
  | _ => none

def isStringMark (c : Char) : Bool := c == '\'' || c == '"'

/-- What the next character belongs to: the list itself, the token that a `$` began, or a string
literal that ends at a mark, after a backslash or not. -/
inductive Mode where
  | plain
  | global
  | literal (mark : Char)
  | escaped (mark : Char)
  deriving DecidableEq, Repr

/-- What follows a character of a token or a string literal. The character after a `$` is part of
a name, white space, or the second half of a special global: in no case does it split or quote. -/
def Mode.next : Mode → Char → Mode
  | .plain, _ => .plain
  | .global, _ => .plain
  | .escaped mark, _ => .literal mark
  | .literal mark, c =>
    if c = '\\' then .escaped mark else if c = mark then .plain else .literal mark

/-- Splits the rest of a list. `current` is the segment read so far, backwards, `brackets` are
the open brackets, innermost first. -/
def segmentsFrom (mode : Mode) (brackets current : List Char) :
    List Char → Except SplitFault (List (List Char))
  | [] =>
    match mode, brackets with
    | .literal _, _ | .escaped _, _ => .error .unterminatedString
    | _, opener :: _ => .error (.unclosed opener)
    | _, [] => .ok [current.reverse]
  | c :: rest =>
    if mode ≠ .plain then segmentsFrom (mode.next c) brackets (c :: current) rest
    else if c = '$' then segmentsFrom .global brackets (c :: current) rest
    else if isStringMark c then segmentsFrom (.literal c) brackets (c :: current) rest
    else if isOpener c then segmentsFrom .plain (c :: brackets) (c :: current) rest
    else
      match openerOf? c with
      | some opener =>
        if brackets.head? = some opener then segmentsFrom .plain brackets.tail (c :: current) rest
        else .error (.unexpected c)
      | none =>
        if c = ',' && brackets.isEmpty then
          (segmentsFrom .plain brackets [] rest).map (current.reverse :: ·)
        else segmentsFrom .plain brackets (c :: current) rest

def segments (s : List Char) : Except SplitFault (List (List Char)) := segmentsFrom .plain [] [] s

def splitChars (s : List Char) : Except SplitFault (List (List Char)) := do
  let parts := (← segments s).map Text.trim
  if parts = [[]] then .ok []
  else if parts.any List.isEmpty then .error .emptyParameter
  else .ok parts

def split (parameters : String) : Except Unbalanced (List String) :=
  match splitChars parameters.toList with
  | .ok parts => .ok (parts.map String.ofList)
  | .error fault => .error ⟨parameters, fault⟩

end RubyIndex.Parameter
