import RubyIndex.FileTree
import RubyIndex.Text.Lowercase
import RubyIndex.Version
/-!
Settings from the environment. Each falls back to a default when its variable is not set, and only
the number of characters has a text that is refused.
-/

namespace RubyIndex

abbrev Environment := List (String × String)

structure NumberError where
  text : String
  deriving DecidableEq, Repr

/-- The text is shown quoted, and only its first 200 characters. -/
def NumberError.message (e : NumberError) : String :=
  let shown := (Text.quoteChars e.text.toList).take 200
  s!"invalid literal for int() with base 10: {String.ofList shown}"

def digits? : List Char → Option (List Char)
  | [] => none
  | [c] => if Text.isDigit c then some [c] else none
  | c :: '_' :: rest => if Text.isDigit c then (digits? rest).map (c :: ·) else none
  | c :: rest => if Text.isDigit c then (digits? rest).map (c :: ·) else none

def integerChars? (s : List Char) : Option Int :=
  match Text.trimSet Text.isWhiteSpace s with
  | '-' :: rest => (digits? rest).map fun ds => -(Text.numeral ds : Int)
  | '+' :: rest => (digits? rest).map fun ds => (Text.numeral ds : Int)
  | rest => (digits? rest).map fun ds => (Text.numeral ds : Int)

def readInteger (text : String) : Except NumberError Int :=
  match integerChars? text.toList with
  | some n => .ok n
  | none => .error ⟨text⟩

namespace Settings

def stubsDirectoryVariable : String := "RUBY_STUBS_DIR"
def versionVariable : String := "RUBY_VERSION"
def truncateVariable : String := "STUBS_TRUNCATE_CHARACTERS"
def strictVariable : String := "STUBS_STRICT"

def localStubs : Path := ⟨.relative, ["vsix", "stubs"]⟩

/-- The place of the stubs that are installed with the program, which is in no working
directory. -/
def bundledStubs : Path := ⟨.relative, ["<bundled>"]⟩

def stubsDirectory (env : Environment) (tree : FileTree) : Path :=
  match env.lookup stubsDirectoryVariable with
  | some directory => if directory = "" then fallback else .ofString directory
  | none => fallback
where
  fallback : Path := if tree.isDirectory localStubs then localStubs else bundledStubs

/-- The default version, which version managers set as `ruby-3.3.0` too. A value that is no version
is ignored. -/
def defaultVersion (env : Environment) : Option Version :=
  let value := Text.trim ((env.lookup versionVariable).getD "").toList
  let value := ("ruby-".toList.isPrefixOf? value).getD value
  if value.isEmpty then none else (Version.parse (String.ofList value)).toOption

/-- How many characters of documentation are shown. Zero and less stand for all. -/
def truncateCharacters (env : Environment) : Except NumberError Int :=
  match env.lookup truncateVariable with
  | some text => readInteger text
  | none => .ok 4000

def strict (env : Environment) : Bool :=
  let value := Text.lower (Text.trim ((env.lookup strictVariable).getD "").toList)
  ["1", "true", "yes", "on"].contains (String.ofList value)

end Settings

end RubyIndex
