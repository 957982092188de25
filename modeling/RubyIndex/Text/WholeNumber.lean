import RubyIndex.Text.Blank
import RubyIndex.Text.Digit
import RubyIndex.Text.Find
/-!
Whole numbers that a client has written as text. ASCII digits count, with blanks around them, a
sign, leading zeros, single underscores between digits and a fraction of nothing but zeros. After
leading zeros a minus may still come.
-/

namespace RubyIndex.Text.WholeNumber

/-- What is left after a first zero without the zeros and underscores that follow it. Where
neither another digit nor a minus comes next, the last of them stands for the whole part. -/
def afterZero (last : Char) : List Char → Option (List Char)
  | [] => some [last]
  | c :: rest =>
    if c = '0' || c = '_' then afterZero c rest
    else if c = '.' then some (last :: c :: rest)
    else if c.isDigit || c = '-' then some (c :: rest)
    else none

/-- Removes leading zeros. Without a sign a number begins with a digit. -/
def dropZeros : List Char → Option (List Char)
  | '0' :: rest => afterZero '0' rest
  | c :: rest => if c.isDigit then some (c :: rest) else none
  | [] => none

def dropFraction (s : List Char) : List Char :=
  match s.span (· != '.') with
  | (whole, _ :: zeros) => if !zeros.isEmpty && zeros.all (· == '0') then whole else s
  | (_, []) => s

/-- Removes the underscores, which stand neither at an end nor next to each other. -/
def joinGroups (s : List Char) : Option (List Char) :=
  if s.head? == some '_' || s.getLast? == some '_' || occursIn ['_', '_'] s then none
  else some (s.filter (· != '_'))

def significant? (s : List Char) : Option (List Char) := do
  let rest ← dropZeros s
  joinGroups (dropFraction rest)

def natural? (s : List Char) : Option Nat :=
  if s.isEmpty || !s.all (·.isDigit) || (s.head? == some '0' && s != ['0']) then none
  else some (numeral s)

def signed? : List Char → Option Int
  | '-' :: rest => (natural? rest).map fun n => -(n : Int)
  | s => (natural? s).map fun n => (n : Int)

def read? (s : List Char) : Option Int :=
  match trimSet isWhiteSpace s with
  | '-' :: rest => ((significant? rest).bind natural?).map fun n => -(n : Int)
  | '+' :: rest => (significant? rest).bind signed?
  | rest => (significant? rest).bind signed?

example : read? " 02.0 ".toList = some 2 := by decide
example : read? "-01_000".toList = some (-1000) := by decide
example : read? "0_2".toList = some 2 := by decide
example : read? "+0_-7.0".toList = some (-7) := by decide
example : ["", "+", "3.", "1__0", "1.5", "+-1", "-_1", "0_", "1e3", "-0-1", "0-01"].all
    (fun s => (read? s.toList).isNone) := by decide

end RubyIndex.Text.WholeNumber
