import RubyIndex.Text.Printable
/-!
A text in quotes on one line, as messages show it. Single quotes are used unless the text holds
one and no double quote. The backslash and the quote in use are escaped, line feeds, carriage
returns and tabs are written by name, and other characters that do not print by their code point.
-/

namespace RubyIndex.Text

def hexDigits (width n : Nat) : List Char :=
  let ds := Nat.toDigits 16 n
  List.replicate (width - ds.length) '0' ++ ds

def quoteMark (s : List Char) : Char :=
  if s.contains '\'' && !s.contains '"' then '"' else '\''

def quoteChar (mark c : Char) : List Char :=
  if c = mark || c = '\\' then ['\\', c]
  else if c = '\n' then ['\\', 'n']
  else if c = '\r' then ['\\', 'r']
  else if c = '\t' then ['\\', 't']
  else if isPrintable c then [c]
  else if c.toNat < 0x100 then '\\' :: 'x' :: hexDigits 2 c.toNat
  else if c.toNat < 0x10000 then '\\' :: 'u' :: hexDigits 4 c.toNat
  else '\\' :: 'U' :: hexDigits 8 c.toNat

def quoteChars (s : List Char) : List Char :=
  let mark := quoteMark s
  mark :: s.flatMap (quoteChar mark) ++ [mark]

def quoted (s : String) : String := String.ofList (quoteChars s.toList)

end RubyIndex.Text
