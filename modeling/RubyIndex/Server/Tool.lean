import RubyIndex.Server.Argument
import RubyIndex.Server.Session
/-!
The tools that a client may call: what each is for, which parameters it takes, and the question
that a call puts.
-/

namespace RubyIndex.Server

inductive Tool where
  | lintStubs
  | listVersions
  | getNamespace
  | getMethod
  | complete
  | findMethods
  | searchDocumentation
  deriving DecidableEq, Repr

structure ToolParameter where
  name : String
  required : Bool
  description : String
  deriving DecidableEq, Repr

namespace Tool

def all : List Tool :=
  [lintStubs, listVersions, getNamespace, getMethod, complete, findMethods, searchDocumentation]

def name : Tool → String
  | lintStubs => "lint_stubs"
  | listVersions => "list_ruby_versions"
  | getNamespace => "get_namespace"
  | getMethod => "get_method"
  | complete => "complete"
  | findMethods => "find_methods"
  | searchDocumentation => "search_documentation"

def description : Tool → String
  | lintStubs =>
    "Check the stubs of a Ruby version for consistency problems like dangling aliases, " ++
      "undefined superclasses, duplicated declarations and parameters the documentation does " ++
      "not mention."
  | listVersions =>
    "List the Ruby versions that stubs are available for and the version used by default."
  | getNamespace =>
    "Get a class or module: its documentation, superclass, ancestors, constants and method " ++
      "signatures.\n\nMethod documentation is not included, use \x60get_method\x60 to retrieve it."
  | getMethod =>
    "Get the signature and documentation of a method, following the ancestors of the namespace " ++
      "when\nthe namespace does not declare it itself."
  | complete =>
    "Complete a class or module name, a method or constant of a namespace, or a global variable."
  | findMethods =>
    "Find every class and module that declares a method with the given name or alias."
  | searchDocumentation =>
    "Search the names and documentation of classes, modules, methods, constants and global " ++
      "variables.\n\nResults whose name matches a keyword are listed before results that only " ++
      "match in their documentation."

def versionParameter : ToolParameter :=
  ⟨"ruby_version", false,
    "The Ruby version to use, e.g. \x603.3\x60 or \x602.7.6\x60. If there are no stubs for that " ++
      "version, the closest lower version is used. If not provided, the configured default " ++
      "version (or the newest available) is used."⟩

def namespaceParameter (name : String) : ToolParameter :=
  ⟨name, true,
    "The fully qualified name of the class or module, e.g. \x60String\x60 or " ++
      "\x60OpenSSL::SSL::SSLSocket\x60."⟩

def methodParameter (name : String) : ToolParameter :=
  ⟨name, true, "The name of the method, e.g. \x60center\x60, \x60[]=\x60 or \x60new\x60."⟩

def singletonParameter : ToolParameter :=
  ⟨"singleton", false,
    "Whether to look up a singleton (class-level, \x60self.\x60) method instead of an instance " ++
      "method."⟩

def inheritedParameter : ToolParameter :=
  ⟨"include_inherited", false,
    "Whether to include methods inherited from ancestors, not just the ones declared on the " ++
      "namespace."⟩

def limitParameter : ToolParameter := ⟨"limit", false, "The maximum number of results to return."⟩

def prefixParameter : ToolParameter :=
  ⟨"prefix", true,
    "The text to complete. Without a namespace this completes class and module names; a prefix " ++
      "starting with \x60$\x60 completes global variables."⟩

def ownerParameter : ToolParameter :=
  ⟨"namespace", false,
    "The class or module whose methods (and constants, for singleton completion) to complete."⟩

def keywordsParameter : ToolParameter :=
  ⟨"keywords", true,
    "The keywords to search for in names and documentation. The search is not case-sensitive."⟩

def requireAllParameter : ToolParameter :=
  ⟨"require_all", false,
    "Whether all keywords must be present for a result to appear in the search results."⟩

def ruleNames : String := ", ".intercalate (Lint.Rule.names.map fun n => s!"\x60{n}\x60")

def rulesParameter : ToolParameter :=
  ⟨"rules", false,
    s!"The lint rules to run. If not provided, all rules are run. Available rules: {ruleNames}."⟩

def disabledParameter : ToolParameter :=
  ⟨"disabled", false, s!"The lint rules to skip. Available rules: {ruleNames}."⟩

def parameters : Tool → List ToolParameter
  | lintStubs => [disabledParameter, versionParameter, rulesParameter]
  | listVersions => []
  | getNamespace => [inheritedParameter, namespaceParameter "name", versionParameter]
  | getMethod =>
    [methodParameter "method", namespaceParameter "namespace", versionParameter, singletonParameter]
  | complete =>
    [limitParameter, ownerParameter, prefixParameter, versionParameter, singletonParameter]
  | findMethods => [limitParameter, methodParameter "name", versionParameter]
  | searchDocumentation =>
    [keywordsParameter, limitParameter, requireAllParameter, versionParameter]

def unexpected (tool : Tool) (args : Arguments) : List String :=
  sortOn id ((args.map (·.1)).filter fun name => !tool.parameters.any (·.name == name))

/-- Whether the tool tells which arguments it did not expect. -/
def namesUnexpected (tool : Tool) : Bool := tool == lintStubs

def versionOf? (args : Arguments) : Option (Option String) :=
  args.optional? "ruby_version" none (Argument.optional? Argument.text?)

def rulesOf? (args : Arguments) (name : String) : Option (List String) :=
  (args.optional? name none (Argument.optional? Argument.textList?)).map (·.getD [])

def receiverOf? (args : Arguments) : Option Receiver :=
  (args.optional? "singleton" false Argument.flag?).map receiverFor

def lookup? (args : Arguments) : Tool → Option Lookup
  | listVersions => none
  | lintStubs => do
    some (.lint (← rulesOf? args "rules") (← rulesOf? args "disabled"))
  | getNamespace => do
    let name ← args.required? "name" Argument.text?
    some (.describe name (← args.optional? "include_inherited" false Argument.flag?))
  | getMethod => do
    let owner ← args.required? "namespace" Argument.text?
    let name ← args.required? "method" Argument.text?
    some (.method owner name (← receiverOf? args))
  | complete => do
    let start ← args.required? "prefix" Argument.text?
    let owner ← args.optional? "namespace" none (Argument.optional? Argument.text?)
    let receiver ← receiverOf? args
    some (.complete start owner receiver (← args.optional? "limit" defaultCount Argument.count?))
  | findMethods => do
    let name ← args.required? "name" Argument.text?
    some (.places name (← args.optional? "limit" defaultCount Argument.count?))
  | searchDocumentation => do
    let keywords ← args.required? "keywords" Argument.textList?
    let requireAll ← args.optional? "require_all" false Argument.flag?
    some (.search keywords requireAll
      (← args.optional? "limit" defaultSearchCount Argument.count?))

def question? (tool : Tool) (args : Arguments) : Option Question :=
  if !(tool.unexpected args).isEmpty then none
  else
    match tool with
    | listVersions => some .versions
    | _ => do some (.about (← versionOf? args) (← lookup? args tool))

end Tool

inductive CallError where
  | unknownTool (name : String)
  | unexpectedArguments (tool : Tool) (names : List String)
  | badArguments (tool : Tool)
  | failed (tool : Tool) (error : ServerError)
  deriving DecidableEq, Repr

/-- What a client is told. What is wrong with the value of an argument is not part of it. -/
def CallError.message? : CallError → Option String
  | .unknownTool name => some s!"Unknown tool: {name}"
  | .unexpectedArguments tool names =>
    let listed := ", ".intercalate names
    some s!"Error calling tool '{tool.name}': Got unexpected keyword argument(s): {listed}"
  | .badArguments _ => none
  | .failed tool error => some s!"Error calling tool '{tool.name}': {error.message}"

def Tool.refusal (tool : Tool) (args : Arguments) : CallError :=
  let names := tool.unexpected args
  if tool.namesUnexpected && !names.isEmpty then .unexpectedArguments tool names
  else .badArguments tool

def Session.call (s : Session) (cache : SnapshotCache) (tree : FileTree) (name : String)
    (args : Arguments) : Except CallError Answer × SnapshotCache :=
  match Tool.all.find? (·.name == name) with
  | none => (.error (.unknownTool name), cache)
  | some tool =>
    match tool.question? args with
    | none => (.error (tool.refusal args), cache)
    | some question =>
      match s.answer cache tree question with
      | (.ok answer, cache) => (.ok answer, cache)
      | (.error e, cache) => (.error (.failed tool e), cache)

end RubyIndex.Server
