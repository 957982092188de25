/-!
Paths of files by their components. Repeated slashes, slashes at the end and the component `.` mean
nothing and are left out. Exactly two slashes at the start are a root of their own.
-/

namespace RubyIndex

inductive PathRoot where
  | relative
  | single
  | double
  deriving DecidableEq, Repr

structure Path where
  root : PathRoot := .relative
  parts : List String := []
  deriving DecidableEq, Repr

namespace Path

def rootOf : List Char → PathRoot
  | '/' :: '/' :: '/' :: _ => .single
  | '/' :: '/' :: _ => .double
  | '/' :: _ => .single
  | _ => .relative

def ofString (source : String) : Path where
  root := rootOf source.toList
  parts := ((source.toList.splitOn '/').filter fun p => p != [] && p != ['.']).map String.ofList

def rootText : PathRoot → String
  | .relative => ""
  | .single => "/"
  | .double => "//"

def text (p : Path) : String :=
  if p.root = .relative && p.parts.isEmpty then "."
  else rootText p.root ++ "/".intercalate p.parts

/-- The greatest number of bytes of a component, and of a whole path. -/
def componentLimit : Nat := 255
def lengthLimit : Nat := 4095

def isLongName (name : String) : Bool := componentLimit < name.utf8ByteSize

def isLong (source : String) : Bool := lengthLimit < source.utf8ByteSize

/-- Whether a text holds the character zero, which ends a path and so cannot be part of one. -/
def hasZero (source : String) : Bool := source.toList.contains '\x00'

def append (p : Path) (parts : List String) : Path := { p with parts := p.parts ++ parts }

def below? (directory p : Path) : Option (List String) :=
  if p.root = directory.root then directory.parts.isPrefixOf? p.parts else none

/-- The path relative to a directory, as text. A path outside it is left as it is. -/
def relativeText (directory : Path) (source : String) : String :=
  match below? directory (ofString source) with
  | some parts => ({ parts := parts } : Path).text
  | none => source

/-- Removes the part of a file name from its last dot on, unless the dot is first or last. -/
def dropSuffix (name : List Char) : List Char :=
  match name.reverse.span (· != '.') with
  | (suffix, _ :: rest) => if suffix.isEmpty || rest.isEmpty then name else rest.reverse
  | (_, []) => name

def stem (p : Path) : String :=
  String.ofList (dropSuffix (p.parts.getLast?.getD "").toList)

def partsLe : List String → List String → Bool
  | [], _ => true
  | _ :: _, [] => false
  | a :: as, b :: bs => a < b || (a == b && partsLe as bs)

end Path

end RubyIndex
