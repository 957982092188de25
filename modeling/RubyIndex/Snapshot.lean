import RubyIndex.Path
import RubyIndex.SymbolTable.Merge
import RubyIndex.Version
/-!
The stubs of one Ruby version: the files of a directory that could be read, those that could not,
and the table of what they declare.
-/

namespace RubyIndex

structure FileError where
  path : String
  line : Nat
  message : String
  deriving DecidableEq, Repr

structure Snapshot where
  version : Version
  directory : Path
  files : List StubFile
  errors : List FileError
  table : SymbolTable
  deriving DecidableEq, Repr

namespace Snapshot

def ofFiles (version : Version) (directory : Path) (files : List StubFile)
    (errors : List FileError) : Snapshot :=
  ⟨version, directory, files, errors, SymbolTable.ofFiles files⟩

def relativePath (s : Snapshot) (path : String) : String := s.directory.relativeText path

end Snapshot

end RubyIndex
