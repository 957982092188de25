import RubyIndex.Corpus.Cache
import RubyIndex.Json
import RubyIndex.Lint.Report
import RubyIndex.Text.ControlSequence
import RubyIndex.Text.Lines
import RubyIndex.Text.Similarity
/-!
The command lines of the two programs. `ruby-stubs-lint` checks the stubs of one or all Ruby
versions and reports what it finds. `ruby-stubs-mcp` starts a server, of which only the check of
its arguments is part of this library.
-/

namespace RubyIndex.CommandLine

inductive Program where
  | lint
  | mcp
  deriving DecidableEq, Repr

def Program.name : Program → String
  | .lint => "ruby-stubs-lint"
  | .mcp => "ruby-stubs-mcp"

inductive Opt where
  | stubsDir
  | rubyVersion
  | all
  | rule
  | disable
  | format
  | verbose
  | transport
  | help
  deriving DecidableEq, Repr

namespace Opt

def name : Opt → String
  | stubsDir => "--stubs-dir"
  | rubyVersion => "--ruby-version"
  | all => "--all"
  | rule => "--rule"
  | disable => "--disable"
  | format => "--format"
  | verbose => "--verbose"
  | transport => "--mcp-transport"
  | help => "--help"

def isFlag : Opt → Bool
  | all | verbose | help => true
  | _ => false

def choices : Opt → List String
  | rule | disable => Lint.Rule.names
  | format => ["text", "json"]
  | transport => ["stdio", "streamable-http"]
  | _ => []

def ofProgram : Program → List Opt
  | .lint => [stubsDir, rubyVersion, all, rule, disable, format, verbose, help]
  | .mcp => [stubsDir, rubyVersion, transport, help]

end Opt

structure Parsed where
  options : List (Opt × String) := []
  extra : List String := []
  deriving DecidableEq, Repr

inductive UsageError where
  | missingValue (option : Opt)
  | unwantedValue (option : Opt)
  | unknownOption (name : String) (similar : List String)
  | badChoice (option : Opt) (value : String)
  | noDirectory (option : Opt) (value : String)
  | notDirectory (option : Opt) (value : String)
  | zeroCharacter
  | extraArguments (extra : List String)
  | allAndVersion
  | nothingSelected
  | badVersion (error : VersionError)
  deriving DecidableEq, Repr

namespace UsageError

def message : UsageError → String
  | missingValue option => s!"Option {Text.quoted option.name} requires an argument."
  | unwantedValue option => s!"Option {Text.quoted option.name} does not take a value."
  | unknownOption name [] => s!"No such option {Text.quoted name}."
  | unknownOption name [similar] =>
    s!"No such option {Text.quoted name}. Did you mean {Text.quoted similar}?"
  | unknownOption name similar =>
    let listed := ", ".intercalate ((sortOn id similar).map Text.quoted)
    s!"No such option {Text.quoted name}. (Did you mean one of: {listed}?)"
  | badChoice option value =>
    let listed := ", ".intercalate (option.choices.map Text.quoted)
    s!"Invalid value for {Text.quoted option.name}: {Text.quoted value} is not one of {listed}."
  | noDirectory option value =>
    s!"Invalid value for {Text.quoted option.name}: Directory {Text.quoted value} does not exist."
  | notDirectory option value =>
    s!"Invalid value for {Text.quoted option.name}: Directory {Text.quoted value} is a file."
  | zeroCharacter => "embedded null byte"
  | extraArguments [one] => s!"Got unexpected extra argument ({one})"
  | extraArguments extra =>
    let listed := " ".intercalate extra
    s!"Got unexpected extra arguments ({listed})"
  | allAndVersion => "--all and --ruby-version cannot be used together"
  | nothingSelected => "Every selected rule is disabled"
  | badVersion error => s!"Invalid value for --ruby-version: {error.message}"

def showsUsage : UsageError → Bool
  | missingValue _ | unwantedValue _ => false
  | _ => true

end UsageError

def splitValue (s : List Char) : List Char × Option (List Char) :=
  match s.span (· != '=') with
  | (name, _ :: value) => (name, some value)
  | (name, []) => (name, none)

def findOption (p : Program) (name : String) : Except UsageError Opt :=
  match (Opt.ofProgram p).find? (·.name == name) with
  | some option => .ok option
  | none =>
    .error (.unknownOption name
      (if startsWith "--" name then
        Text.Similarity.closest 3 name ((Opt.ofProgram p).map (·.name))
      else []))

/-- Takes arguments apart. After `--` none is an option, and a dash by itself is never one. -/
def parse (p : Program) : List String → Except UsageError Parsed
  | [] => .ok {}
  | "--" :: rest => .ok { extra := rest }
  | arg :: rest =>
    match arg.toList with
    | '-' :: '-' :: _ =>
      let (name, value) := splitValue arg.toList
      match findOption p (String.ofList name) with
      | .error e => .error e
      | .ok option =>
        match option.isFlag, value, rest with
        | true, some _, _ => .error (.unwantedValue option)
        | true, none, rest =>
          (parse p rest).map fun r => { r with options := (option, "") :: r.options }
        | false, some value, rest =>
          (parse p rest).map fun r =>
            { r with options := (option, String.ofList value) :: r.options }
        | false, none, [] => .error (.missingValue option)
        | false, none, value :: rest =>
          (parse p rest).map fun r => { r with options := (option, value) :: r.options }
    | '-' :: c :: _ => .error (.unknownOption (String.ofList ['-', c]) [])
    | _ => (parse p rest).map fun r => { r with extra := arg :: r.extra }

namespace Parsed

def valuesOf (a : Parsed) (option : Opt) : List String :=
  (a.options.filter (·.1 == option)).map (·.2)

def valueOf? (a : Parsed) (option : Opt) : Option String := (a.valuesOf option).getLast?

def has (a : Parsed) (option : Opt) : Bool := a.options.any (·.1 == option)

def order (a : Parsed) : List Opt := (a.options.map (·.1)).eraseDups

end Parsed

/-- Whether a path ends in a component that stands for the place reached before, so that only a
directory can be meant. -/
def endsInPlace (path : String) : Bool :=
  match (path.toList.splitOn '/').getLast? with
  | some last => last == [] || last == ['.']
  | none => true

/-- A directory must exist. A file is not found where only a directory can be meant, and nothing is
where the value as it is written is too long. -/
def checkDirectory (tree : FileTree) (option : Opt) (value : String) : Except UsageError Unit :=
  match tree.node (Path.ofString value) with
  | .error .zeroCharacter => .error .zeroCharacter
  | .ok .directory =>
    if value = "" || Path.isLong value then .error (.noDirectory option value) else .ok ()
  | .ok (.file _) =>
    if endsInPlace value || Path.isLong value then .error (.noDirectory option value)
    else .error (.notDirectory option value)
  | .error _ => .error (.noDirectory option value)

def checkOption (tree : FileTree) (a : Parsed) (option : Opt) : Except UsageError Unit :=
  match option with
  | .rule | .disable => (a.valuesOf option).forM checkChoice
  | .format | .transport => (a.valueOf? option).toList.forM checkChoice
  | .stubsDir => (a.valueOf? option).toList.forM (checkDirectory tree option)
  | _ => .ok ()
where
  checkChoice (value : String) : Except UsageError Unit :=
    if option.choices.contains value then .ok () else .error (.badChoice option value)

/-- Takes arguments apart and checks each value, and then that nothing else is there. -/
def read (p : Program) (tree : FileTree) (args : List String) : Except UsageError Parsed := do
  let a ← parse p args
  a.order.forM (checkOption tree a)
  if a.extra.isEmpty then .ok a else .error (.extraArguments a.extra)

structure Outcome where
  exitCode : Nat := 0
  out : String := ""
  err : String := ""
  deriving DecidableEq, Repr

def Outcome.printed (o : Outcome) : Outcome :=
  { o with out := plain o.out, err := plain o.err }
where
  plain (s : String) : String := String.ofList (Text.dropReturns (Text.dropSequences s.toList))

/-- A failure that a program does not report itself but passes on. -/
inductive Failure where
  | argument (error : UsageError)
  | corpus (error : CorpusError)
  | setting (error : NumberError)
  deriving DecidableEq, Repr

def Failure.message : Failure → String
  | argument error => error.message
  | corpus error => error.message
  | setting error => error.message

def usageOutcome (p : Program) (e : UsageError) : Outcome where
  exitCode := 2
  err :=
    (if e.showsUsage then
      s!"Usage: {p.name} [OPTIONS]\nTry '{p.name} --help' for help.\n\n"
    else "") ++ s!"Error: {e.message}\n"

def refuse (p : Program) : UsageError → Except Failure Outcome
  | .zeroCharacter => .error (.argument .zeroCharacter)
  | e => .ok (usageOutcome p e)

def findingJson (f : Lint.Finding) : Json :=
  .object
    [("rule", .text f.rule.name), ("severity", .text f.severity.text), ("path", .text f.path),
      ("line", .number f.line), ("namespace", (f.owner.map Json.text).getD .null),
      ("message", .text f.message)]

def reportJson (r : Lint.Report) : Json :=
  .object
    [("version", .text r.version.text), ("files", .number r.files),
      ("findings", .list (r.findings.map findingJson)),
      ("counts", .object (r.counts.map fun c => (c.1, .number c.2))),
      ("errors", .number r.errors), ("warnings", .number r.warnings),
      ("has_errors", .flag r.hasErrors)]

def showReports (asJson : Bool) (reports : List Lint.Report) : String :=
  if asJson then (Json.list (reports.map reportJson)).render 0 ++ "\n"
  else String.join (reports.map fun r => r.render ++ "\n")

structure LintRequest where
  directory : Option Path
  version : Option String
  everyVersion : Bool
  rules : List String
  disabled : List String
  asJson : Bool
  deriving DecidableEq, Repr

def lintRequest (tree : FileTree) (args : List String) : Except UsageError LintRequest := do
  let a ← read .lint tree args
  let version := a.valueOf? .rubyVersion
  let rules := a.valuesOf .rule
  let disabled := a.valuesOf .disable
  if a.has .all && version.any (· != "") then .error .allAndVersion
  else if (Lint.selectRules rules disabled).toOption.all (·.isEmpty) then .error .nothingSelected
  else
    .ok
      { directory := (a.valueOf? .stubsDir).map Path.ofString
        version := version
        everyVersion := a.has .all
        rules := rules
        disabled := disabled
        asJson := a.valueOf? .format == some "json" }

def requestedSnapshots (r : LintRequest) (env : Environment) (tree : FileTree) :
    Except CorpusError (List Snapshot) := do
  let corpus ← (Corpus.configure { directory := r.directory } env tree).mapError .badVersion
  let client : Client := ⟨0, corpus⟩
  let cache : SnapshotCache := {}
  if r.everyVersion then (cache.snapshots client tree).1
  else (cache.snapshot client tree r.version).1.map ([·])

/-- Whether the lint program reports a failure itself. That a directory stands where a file should
be, or that a path is too long, is none of its own errors, and is passed on. -/
def isReported : CorpusError → Bool
  | .directoryAsFile _ | .pathTooLong _ => false
  | _ => true

def failure (message : String) : Outcome := { exitCode := 1, err := s!"Error: {message}\n" }

def runLint (args : List String) (env : Environment) (tree : FileTree) :
    Except Failure Outcome :=
  match lintRequest tree args with
  | .error e => refuse .lint e
  | .ok r =>
    match requestedSnapshots r env tree with
    | .error e => if isReported e then .ok (failure e.message) else .error (.corpus e)
    | .ok snapshots =>
      match snapshots.mapM fun s => Lint.lint s r.rules r.disabled with
      | .error e => .ok (failure e.message)
      | .ok reports =>
        .ok
          { exitCode := if reports.any (·.hasErrors) then 1 else 0
            out := showReports r.asJson reports }

def serverArguments (args : List String) (tree : FileTree) : Except UsageError Parsed := do
  let a ← read .mcp tree args
  match a.valueOf? .rubyVersion with
  | none => .ok a
  | some text =>
    match Version.parse text with
    | .ok _ => .ok a
    | .error e => .error (.badVersion e)

/-- Prepares the server program. With a directory or a version of its own it reads the limit of
texts from the environment, which may be no number. -/
def prepareServer (args : List String) (env : Environment) (tree : FileTree) :
    Except Failure Outcome :=
  match serverArguments args tree with
  | .error e => refuse .mcp e
  | .ok a =>
    if a.has .stubsDir || a.has .rubyVersion then
      match Settings.truncateCharacters env with
      | .ok _ => .ok {}
      | .error e => .error (.setting e)
    else .ok {}

def run (p : Program) (args : List String) (env : Environment) (tree : FileTree) :
    Except Failure Outcome :=
  (match p with
    | .lint => runLint args env tree
    | .mcp => prepareServer args env tree).map Outcome.printed

end RubyIndex.CommandLine
