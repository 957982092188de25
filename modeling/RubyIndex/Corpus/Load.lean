import RubyIndex.Corpus.Error
import RubyIndex.FileTree
import RubyIndex.Settings
import RubyIndex.Snapshot
import RubyIndex.StubFile.Reading
/-!
A corpus of stubs: a directory with one directory of stub files for each Ruby version. This module
finds the versions, chooses one, and loads its files.
-/

namespace RubyIndex

structure Corpus where
  directory : Path
  defaultVersion : Option Version := none
  strict : Bool := false
  deriving DecidableEq, Repr

/-- What was chosen explicitly. The environment stands in for the rest. -/
structure CorpusOptions where
  directory : Option Path := none
  defaultVersion : Option String := none
  strict : Option Bool := none
  deriving DecidableEq, Repr

namespace Corpus

def configure (options : CorpusOptions) (env : Environment) (tree : FileTree) :
    Except VersionError Corpus := do
  let chosen ← match options.defaultVersion with
    | some text => (Version.parse text).map some
    | none => .ok (Settings.defaultVersion env)
  .ok
    { directory := options.directory.getD (Settings.stubsDirectory env tree)
      defaultVersion := chosen
      strict := options.strict.getD (Settings.strict env) }

def versionDirectories (c : Corpus) (tree : FileTree) : List (String × Version) :=
  (tree.children c.directory).filterMap fun
    | (name, .directory) => (Version.ofDirectoryChars? name.toList).map fun v => (name, v)
    | _ => none

def longEntry? (c : Corpus) (tree : FileTree) : Option Path :=
  ((tree.children c.directory).map fun e => c.directory.append [e.1]).find? fun p =>
    Path.isLong p.text

/-- The versions that have a directory, oldest first. Every entry of the directory is looked at. -/
def availableVersions (c : Corpus) (tree : FileTree) : Except CorpusError (List Version) :=
  match tree.node c.directory with
  | .ok .directory =>
    match c.longEntry? tree with
    | some p => .error (.pathTooLong p.text)
    | none => .ok (Version.sort ((c.versionDirectories tree).map (·.2)))
  | .error .tooLong => .error (.pathTooLong c.directory.text)
  | _ => .error (.directoryMissing c.directory.text)

/-- The version to use when one is requested: that one or the closest below it. Without a request
it is chosen for the default version, or the newest version if there is no default. -/
def choose (c : Corpus) (available : List Version) (requested : Option Version) :
    Except CorpusError Version :=
  let found :=
    match requested.or c.defaultVersion with
    | some v => v.closest? available
    | none => available.getLast?
  match found with
  | some v => .ok v
  | none => .error (.notFound (requested.or c.defaultVersion) available c.directory.text)

def resolveVersion (c : Corpus) (tree : FileTree) (requested : Option String) :
    Except CorpusError Version := do
  let available ← c.availableVersions tree
  match requested with
  | none => c.choose available none
  | some text =>
    match Version.parse text with
    | .ok v => c.choose available (some v)
    | .error e => .error (.badVersion e)

def snapshotDirectory (c : Corpus) (v : Version) : Path := c.directory.append [v.directoryName]

/-- Whether an entry is taken for a stub file, by its name alone. -/
def isStubName (name : String) : Bool := ".rb".toList.isSuffixOf name.toList

def stubEntries (c : Corpus) (tree : FileTree) (v : Version) : List (Path × Node) :=
  let entries := (tree.below (c.snapshotDirectory v)).filter fun e =>
    e.1.getLast?.any isStubName
  (entries.mergeSort fun a b => Path.partsLe a.1 b.1).map fun e =>
    ((c.snapshotDirectory v).append e.1, e.2)

def notTextMessage : String := "The file is not valid UTF-8"

/-- A file as it is reported when its fault does not make loading fail. The line is the one where
the fault begins. -/
def reported (path : String) (bytes : List UInt8) : ContentFault → FileError
  | .notText fault => ⟨path, (bytes.take fault.start).count 10 + 1, notTextMessage⟩
  | .notStubs error => ⟨path, error.line, error.reason⟩

def readStubs (path : String) (bytes : List UInt8) : Except ContentFault StubFile :=
  match Text.Utf8.decode bytes with
  | .error fault => .error (.notText fault)
  | .ok text =>
    match StubFile.parse (String.ofList text) path with
    | .error e => .error (.notStubs e)
    | .ok f => .ok f

/-- Loads an entry. A directory cannot be read, whatever the mode. -/
def loadEntry (c : Corpus) (v : Version) : Path × Node → Except CorpusError (StubFile ⊕ FileError)
  | (path, .directory) => .error (.directoryAsFile path.text)
  | (path, .file bytes) =>
    match readStubs path.text bytes with
    | .ok f => .ok (.inl f)
    | .error fault =>
      if c.strict then .error (.fileFault v path.text fault)
      else .ok (.inr (reported path.text bytes fault))

def load (c : Corpus) (tree : FileTree) (v : Version) : Except CorpusError Snapshot := do
  let results ← (c.stubEntries tree v).mapM (c.loadEntry v)
  .ok (Snapshot.ofFiles v (c.snapshotDirectory v) (results.filterMap Sum.getLeft?)
    (results.filterMap Sum.getRight?))

end Corpus

end RubyIndex
