import RubyIndex.Text.Digit
import RubyIndex.Text.Lowercase
import RubyIndex.Text.Word
/-!
The file names that go with the names of classes and modules: `OpenSSL` is in `open_ssl.rb`, and
`WIN32OLE` in `win32_ole.rb`. Underscores and case do not matter when they are compared.
-/

namespace RubyIndex.Lint

def isSmall (c : Char) : Bool := 'a' ≤ c && c ≤ 'z'

/-- Puts an underscore between a run of capitals and a capital that begins a word. -/
def cutAcronyms : List Char → List Char
  | a :: b :: c :: rest =>
    if Text.isCapital a && Text.isCapital b && isSmall c then
      a :: '_' :: cutAcronyms (b :: c :: rest)
    else a :: cutAcronyms (b :: c :: rest)
  | s => s

def cutWords : List Char → List Char
  | a :: b :: rest =>
    if (isSmall a || Text.isDigit a) && Text.isCapital b then a :: '_' :: cutWords (b :: rest)
    else a :: cutWords (b :: rest)
  | s => s

def snakeCase (name : String) : String :=
  String.ofList (Text.lower (cutWords (cutAcronyms name.toList)))

def looseName (name : String) : String :=
  String.ofList (Text.lower (name.toList.filter (· != '_')))

end RubyIndex.Lint
