import RubyIndex.Path
/-!
A tree of directories and files below a working directory. Entries are listed by their components
from there, and each stands below directories that are listed too. The directories above it, up to
the root, are there as well, but nothing that they hold is. So an absolute path names one of them or
is missing, and what a tree says of stubs is about a directory below the working directory. Every
file of a tree can be read, and there are no links.
-/

namespace RubyIndex

inductive Node where
  | directory
  | file (bytes : List UInt8)
  deriving DecidableEq, Repr

/-- A place in a file system: an entry below the working directory, by its components from there,
or a directory above it. -/
inductive Place where
  | inside (parts : List String)
  | above
  deriving DecidableEq, Repr

inductive PathFault where
  | missing
  | tooLong
  | zeroCharacter
  deriving DecidableEq, Repr

structure FileTree where
  entries : List (List String × Node) := []
  deriving DecidableEq, Repr

namespace FileTree

def get? (t : FileTree) (parts : List String) : Option Node :=
  if parts.isEmpty then some .directory else t.entries.lookup parts

/-- What components name above the working directory, where only the way up is known. -/
def above (parts : List String) : Except PathFault Place :=
  match parts.find? (· != "..") with
  | none => .ok .above
  | some part => .error (if Path.isLongName part then .tooLong else .missing)

/-- Follows components from a directory. Every one but the last must be a directory. A name is
looked up in a directory only if it is not too long. -/
def follow (t : FileTree) : (place parts : List String) → Except PathFault Place
  | place, [] => if (t.get? place).isSome then .ok (.inside place) else .error .missing
  | place, part :: rest =>
    if t.get? place = some .directory then
      if part = ".." then
        if place.isEmpty then above rest else t.follow place.dropLast rest
      else if Path.isLongName part then .error .tooLong
      else t.follow (place ++ [part]) rest
    else .error .missing

def locate (t : FileTree) (p : Path) : Except PathFault Place :=
  if Path.hasZero p.text then .error .zeroCharacter
  else if Path.isLong p.text then .error .tooLong
  else if p.root = .relative then t.follow [] p.parts
  else above p.parts

def node (t : FileTree) (p : Path) : Except PathFault Node := do
  match ← t.locate p with
  | .inside parts => (t.get? parts).elim (.error .missing) .ok
  | .above => .ok .directory

def isDirectory (t : FileTree) (p : Path) : Bool := (t.node p).toOption == some .directory

def below (t : FileTree) (p : Path) : List (List String × Node) :=
  match t.locate p with
  | .ok (.inside place) =>
    t.entries.filterMap fun e =>
      match place.isPrefixOf? e.1 with
      | some [] | none => none
      | some rest => some (rest, e.2)
  | _ => []

def children (t : FileTree) (p : Path) : List (String × Node) :=
  (t.below p).filterMap fun
    | ([name], node) => some (name, node)
    | _ => none

def addDirectory (t : FileTree) (parts : List String) : FileTree :=
  if (t.get? parts).isSome then t else ⟨t.entries ++ [(parts, .directory)]⟩

/-- Goes along components from a place and creates each directory that is not there. The result is
the tree with the place that is reached. -/
def enter (t : FileTree) : (place parts : List String) → FileTree × List String
  | place, [] => (t, place)
  | place, part :: rest =>
    if part = ".." then t.enter place.dropLast rest
    else (t.addDirectory (place ++ [part])).enter (place ++ [part]) rest

def makeDirectory (t : FileTree) (parts : List String) : FileTree := (t.enter [] parts).1

/-- Writes a file over what may be there, and creates the directories on the way to it. -/
def writeFile (t : FileTree) (parts : List String) (bytes : List UInt8) : FileTree :=
  let (t, place) := t.enter [] parts.dropLast
  let file := place ++ parts.getLast?.toList
  ⟨t.entries.filter (·.1 != file) ++ [(file, .file bytes)]⟩

def remove (t : FileTree) (parts : List String) : FileTree :=
  match t.follow [] parts with
  | .ok (.inside place) => ⟨t.entries.filter fun e => !place.isPrefixOf e.1⟩
  | _ => t

end FileTree

end RubyIndex
