import RubyIndex.Lint.Finding
import RubyIndex.Lint.Naming
import RubyIndex.SymbolTable.Lookup
/-!
What each rule finds in a snapshot, in the order of the files and of the declarations in them.
-/

namespace RubyIndex.Lint

/-- Whether a name stands in a text with no word character on either side. `inWord` says whether
one stands before the text. -/
def mentions (name : List Char) (inWord : Bool) : List Char → Bool
  | [] => name.isEmpty && !inWord
  | c :: rest =>
    (!inWord && match name.isPrefixOf? (c :: rest) with
      | some after => !after.head?.any Text.isWord
      | none => false) ||
    mentions name (Text.isWord c) rest

/-- The named parameters that the documentation of a method does not mention. Without
documentation there are none. -/
def undocumentedParameters (m : Method) : List String :=
  match m.documentation with
  | none => []
  | some documentation =>
    if documentation = "" then []
    else
      ((m.parameters.filter (·.isNamed)).map (·.name)).filter fun name =>
        !mentions name.toList false documentation.toList

def builtinSuperclasses : List String :=
  ["ArgumentError", "Array", "BasicObject", "Class", "Data", "Delegator", "EOFError",
    "EncodingError", "Exception", "FiberError", "File", "Float", "FloatDomainError", "FrozenError",
    "Hash", "IO", "IOError", "IndexError", "Integer", "Interrupt", "KeyError", "LoadError",
    "LocalJumpError", "Module", "NameError", "NoMethodError", "NotImplementedError", "Numeric",
    "Object", "RangeError", "RegexpError", "RuntimeError", "ScriptError", "SecurityError",
    "SignalException", "SimpleDelegator", "StandardError", "StopIteration", "String", "Struct",
    "SystemCallError", "SystemExit", "ThreadError", "TypeError", "ZeroDivisionError"]

/-- The namespaces all of whose classes Ruby brings along: the classes for the error numbers of the
platform are made when a program runs. -/
def builtinNamespaces : List String := ["Errno"]

def isBuiltin (superclass : String) : Bool :=
  let name := dropRoot superclass
  builtinSuperclasses.contains name || builtinNamespaces.any fun n => startsWith s!"{n}::" name

def declarationSites (s : Snapshot) : List (StubFile × Namespace) :=
  s.files.flatMap fun f => f.namespaces.map fun n => (f, n)

def checkParameters (s : Snapshot) : List Finding :=
  (declarationSites s).flatMap fun (f, n) => n.methods.flatMap fun m =>
    (undocumentedParameters m).map fun p =>
      { rule := .undocumentedParameter
        path := s.relativePath f.path
        line := m.line
        owner := some n.qualifiedName
        message := s!"Documentation of {m.qualifiedName n.qualifiedName} " ++
          s!"does not mention parameter \x60{p}\x60" }

def isDefined (s : Snapshot) (n : Namespace) (a : Alias) : Bool :=
  (s.table.get? n.qualifiedName).any fun merged =>
    (merged.findMethod? a.oldName a.receiver).isSome

def checkAliases (s : Snapshot) : List Finding :=
  (declarationSites s).flatMap fun (f, n) =>
    (n.aliases.filter fun a => !isDefined s n a).map fun a =>
      { rule := .danglingAlias
        path := s.relativePath f.path
        line := a.line
        owner := some n.qualifiedName
        message := s!"\x60alias {a.newName} {a.oldName}\x60 refers to a method " ++
          s!"that is not defined in {n.qualifiedName}" }

def checkSuperclasses (s : Snapshot) : List Finding :=
  (declarationSites s).filterMap fun (f, n) => do
    let superclass ← n.superclass
    if (s.table.resolve? superclass n.scope).isSome || isBuiltin superclass then none
    else
      some
        { rule := .unknownSuperclass
          path := s.relativePath f.path
          line := n.line
          owner := some n.qualifiedName
          message := s!"Superclass \x60{superclass}\x60 of {n.qualifiedName} is not defined" }

def checkFileNames (s : Snapshot) : List Finding :=
  s.files.filterMap fun f => do
    let primary ← f.primary?
    let stem := (Path.ofString f.path).stem
    if looseName stem = looseName primary.name then none
    else
      some
        { rule := .fileNameMismatch
          path := s.relativePath f.path
          line := primary.line
          owner := some primary.qualifiedName
          message := s!"File name \x60{stem}.rb\x60 does not match {primary.qualifiedName}, " ++
            s!"expected \x60{snakeCase primary.name}.rb\x60" }

/-- Each explicit namespace that is not nested, with the path of its file, by the order of the
paths as texts. -/
def topLevelSites (s : Snapshot) : List (String × Namespace) :=
  (sortOn (·.path) s.files).flatMap fun f =>
    (f.namespaces.filter fun n => !n.implicit && n.isTopLevel).map fun n => (f.path, n)

def checkNamespaces (s : Snapshot) : List Finding :=
  let sites := topLevelSites s
  sites.filterMap fun (path, n) => do
    let (first, _) ← sites.find? fun site => site.2.qualifiedName == n.qualifiedName
    if first = path then none
    else
      some
        { rule := .duplicateNamespace
          path := s.relativePath path
          line := n.line
          owner := some n.qualifiedName
          message := s!"{n.qualifiedName} is already declared in {s.relativePath first}" }

/-- A method or constant with its place. Members of one kind and name have the same key. -/
structure Member where
  key : String
  path : String
  line : Nat
  deriving DecidableEq, Repr

def membersOf (n : Namespace) : List Member :=
  n.methods.map (fun m => ⟨m.qualifiedName n.qualifiedName, n.path, m.line⟩) ++
    n.constants.map fun c => ⟨s!"{n.qualifiedName}::{c.name}", n.path, c.line⟩

/-- The members whose key is among those seen or the ones before. -/
def repeated (seen : List String) : List Member → List Member
  | [] => []
  | m :: rest =>
    if seen.contains m.key then m :: repeated seen rest else repeated (m.key :: seen) rest

def checkMembers (s : Snapshot) : List Finding :=
  s.table.names.flatMap fun name =>
    (repeated [] ((s.table.declarations name).flatMap membersOf)).map fun m =>
      { rule := .duplicateMember
        path := s.relativePath m.path
        line := m.line
        owner := some name
        message := s!"{m.key} is declared twice" }

def checkConflicts (s : Snapshot) : List Finding :=
  s.table.conflicts.map fun c =>
    { rule := .superclassConflict
      path := s.relativePath c.path
      line := c.line
      owner := some c.owner
      message := s!"{c.owner} is reopened with superclass \x60{c.superclass}\x60 " ++
        s!"but was declared with \x60{c.existing}\x60" }

def checkStatements (s : Snapshot) : List Finding :=
  s.files.flatMap fun f => f.diagnostics.map fun d =>
    { rule := .unrecognizedStatement
      path := s.relativePath f.path
      line := d.line
      message := d.message }

def checkErrors (s : Snapshot) : List Finding :=
  s.errors.map fun e =>
    { rule := .parseError, path := s.relativePath e.path, line := e.line, message := e.message }

def Rule.check : Rule → Snapshot → List Finding
  | undocumentedParameter => checkParameters
  | danglingAlias => checkAliases
  | unknownSuperclass => checkSuperclasses
  | fileNameMismatch => checkFileNames
  | duplicateNamespace => checkNamespaces
  | duplicateMember => checkMembers
  | superclassConflict => checkConflicts
  | unrecognizedStatement => checkStatements
  | parseError => checkErrors

end RubyIndex.Lint
