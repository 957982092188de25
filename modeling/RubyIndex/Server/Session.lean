import RubyIndex.Corpus.Cache
import RubyIndex.Server.Answer
/-!
A server with its corpus, and the questions that it answers.
-/

namespace RubyIndex.Server

inductive Lookup where
  | describe (name : String) (inherited : Bool)
  | method (owner name : String) (receiver : Receiver)
  | complete (start : String) (owner : Option String) (receiver : Receiver) (count : Int)
  | places (name : String) (count : Int)
  | search (keywords : List String) (requireAll : Bool) (count : Int)
  | lint (rules disabled : List String)
  deriving DecidableEq, Repr

inductive Question where
  | versions
  | about (version : Option String) (lookup : Lookup)
  deriving DecidableEq, Repr

inductive Answer where
  | versions (list : VersionList)
  | description (info : NamespaceInfo)
  | method (info : MethodInfo)
  | completions (found : Page Completion)
  | places (name : String) (found : Page MethodMatch)
  | hits (keywords : List String) (found : Page SearchHit)
  | report (report : Lint.Report)
  deriving DecidableEq, Repr

def defaultCount : Int := 50

def defaultSearchCount : Int := 20

def Lookup.answer (limit : Int) (s : Snapshot) : Lookup → Except ServerError Answer
  | .describe name inherited => (namespaceInfo limit s name inherited).map .description
  | .method owner name receiver => (methodInfo limit s owner name receiver).map .method
  | .complete start owner receiver count =>
    (completions limit s start owner receiver count).map .completions
  | .places name count => .ok (.places name (methodPlaces s name count))
  | .search keywords requireAll count =>
    .ok (.hits keywords (searchResults limit s keywords requireAll count))
  | .lint rules disabled =>
    match Lint.lint s rules disabled with
    | .ok report => .ok (.report report)
    | .error e => .error (.unknownRule e)

/-- A client for whom questions are answered, and the limit of texts in answers. -/
structure Session where
  client : Client
  limit : Int
  deriving DecidableEq, Repr

def Session.answer (s : Session) (cache : SnapshotCache) (tree : FileTree) :
    Question → Except ServerError Answer × SnapshotCache
  | .versions => ((versionList s.client.corpus tree).map .versions, cache)
  | .about version lookup =>
    match cache.snapshot s.client tree version with
    | (.ok snapshot, cache) => (lookup.answer s.limit snapshot, cache)
    | (.error e, cache) => (.error (.corpus e), cache)

end RubyIndex.Server
