import RubyIndex.Corpus.Load
import RubyIndex.Lint.Report
import RubyIndex.SymbolTable.Search
import RubyIndex.Text.Similarity
import RubyIndex.Server.Excerpt
/-!
Answers to questions about the stubs of a version: a namespace, a method, completions, places of a
method, and the results of a search. Whoever asks for a namespace or method that does not exist is
told the closest names that do.
-/

namespace RubyIndex.Server

structure VersionEntry where
  version : Version
  files : Nat
  deriving DecidableEq, Repr

structure VersionList where
  default : Option Version
  versions : List VersionEntry
  deriving DecidableEq, Repr

/-- The merged namespace, with what follows from the table. Its documentation and that of its
constants is cut. -/
structure NamespaceInfo where
  version : Version
  merged : Namespace
  superclass : Option String
  path : String
  ancestors : List String
  instanceMethods : List MethodMatch
  singletonMethods : List MethodMatch
  deriving DecidableEq, Repr

structure MethodInfo where
  version : Version
  asked : String
  found : MethodMatch
  deriving DecidableEq, Repr

structure Page (α : Type) where
  version : Version
  items : List α
  truncated : Bool
  deriving DecidableEq, Repr

inductive ServerError where
  | corpus (error : CorpusError)
  | unknownRule (error : Lint.UnknownRule)
  | namespaceNotFound (name : String) (version : Version) (suggestions : List String)
  | methodNotFound (owner method : String) (receiver : Receiver) (version : Version)
      (suggestions : List String)
  deriving DecidableEq, Repr

def suggestionDetails (suggestions : List String) : List (String × String) :=
  if suggestions.isEmpty then [] else [("did you mean", ", ".intercalate suggestions)]

def ServerError.message : ServerError → String
  | .corpus error => error.message
  | .unknownRule error => error.message
  | .namespaceNotFound name version suggestions =>
    withDetails s!"{name} is not a class or module in the Ruby {version.text} stubs."
      (suggestionDetails suggestions)
  | .methodNotFound owner method receiver version suggestions =>
    let name := ({ name := method, receiver := receiver } : Method).qualifiedName owner
    withDetails s!"{name} is not defined in the Ruby {version.text} stubs."
      (suggestionDetails suggestions)

def suggest (name : String) (candidates : List String) : List String :=
  Text.Similarity.closest 3 name candidates

def receiverFor (singleton : Bool) : Receiver := if singleton then .singleton else .inst

def require (s : Snapshot) (name : String) : Except ServerError Namespace :=
  match s.table.get? name with
  | some n => .ok n
  | none => .error (.namespaceNotFound name s.version (suggest name s.table.names))

/-- The methods that may be called on a namespace, without the private ones of its ancestors. -/
def inheritedMethods (t : SymbolTable) (n : Namespace) (receiver : Receiver) : List MethodMatch :=
  (t.availableMethods n.qualifiedName receiver).filter fun m =>
    m.owner == n.qualifiedName || m.method.visibility != .priv

def ownMethods (n : Namespace) (receiver : Receiver) : List MethodMatch :=
  (n.methods.filter (·.receiver == receiver)).map (⟨n.qualifiedName, ·⟩)

def namespaceInfo (limit : Int) (s : Snapshot) (name : String) (inherited : Bool) :
    Except ServerError NamespaceInfo := do
  let n ← require s name
  let methods := fun receiver => sortOn (·.method.name)
    (if inherited then inheritedMethods s.table n receiver else ownMethods n receiver)
  let constants := n.constants.map fun c =>
    { c with documentation := c.documentation.map (truncate limit) }
  .ok
    { version := s.version
      merged :=
        { n with
          documentation := n.documentation.map (truncate limit)
          constants := constants }
      superclass := s.table.superclassOf n
      path := s.relativePath n.path
      ancestors := s.table.ancestors n.qualifiedName
      instanceMethods := methods .inst
      singletonMethods := methods .singleton }

def callableNames (t : SymbolTable) (name : String) (receiver : Receiver) : List String :=
  (t.availableMethods name receiver).flatMap fun m => m.method.name :: m.method.aliases

def methodInfo (limit : Int) (s : Snapshot) (name method : String) (receiver : Receiver) :
    Except ServerError MethodInfo := do
  let n ← require s name
  match s.table.resolveMethod? n.qualifiedName method receiver with
  | some m =>
    .ok
      { version := s.version
        asked := n.qualifiedName
        found :=
          { m with
            method :=
              { m.method with documentation := m.method.documentation.map (truncate limit) } } }
  | none =>
    .error (.methodNotFound n.qualifiedName method receiver s.version
      (suggest method (callableNames s.table n.qualifiedName receiver)))

def cutCompletion (limit : Int) (c : Completion) : Completion :=
  { c with documentation := c.documentation.map (truncate limit) }

def page {α : Type} (s : Snapshot) (count : Int) (items : List α) : Page α :=
  ⟨s.version, takeLimit count items, exceeds count items⟩

/-- Completes a global variable after `$`, a member of a namespace that is named, and else a
namespace. -/
def completions (limit : Int) (s : Snapshot) (start : String) (name : Option String)
    (receiver : Receiver) (count : Int) : Except ServerError (Page Completion) := do
  let items ←
    if startsWith "$" start then .ok (s.table.completeGlobals start)
    else
      match name.filter (· != "") with
      | some name => do
        let n ← require s name
        .ok (s.table.completeMembers n.qualifiedName start receiver false)
      | none => .ok (s.table.completeNamespaces start)
  .ok (page s count (items.map (cutCompletion limit)))

def methodPlaces (s : Snapshot) (name : String) (count : Int) : Page MethodMatch :=
  page s count (s.table.findMethods name)

def cutHit (limit : Int) (h : SearchHit) : SearchHit :=
  { h with documentation := h.documentation.map (truncate limit) }

def searchResults (limit : Int) (s : Snapshot) (keywords : List String) (requireAll : Bool)
    (count : Int) : Page SearchHit :=
  page s count ((s.table.search keywords requireAll).map (cutHit limit))

def versionList (c : Corpus) (tree : FileTree) : Except ServerError VersionList :=
  match c.availableVersions tree with
  | .error e => .error (.corpus e)
  | .ok versions =>
    let entries := versions.map fun v => ⟨v, (c.stubEntries tree v).length⟩
    if versions.isEmpty then .ok ⟨none, entries⟩
    else
      match c.resolveVersion tree none with
      | .ok v => .ok ⟨some v, entries⟩
      | .error e => .error (.corpus e)

end RubyIndex.Server
