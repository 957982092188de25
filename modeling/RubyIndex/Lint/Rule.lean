import RubyIndex.Text.Quoted
/-!
The rules that stubs are checked against, and the choice among them.
-/

namespace RubyIndex.Lint

inductive Severity where
  | error
  | warning
  deriving DecidableEq, Repr

def Severity.text : Severity → String
  | .error => "error"
  | .warning => "warning"

/-- What a rule reports: documentation that does not mention a parameter, an alias of a method that
is not defined, a superclass that is nowhere defined, a file named for no namespace in it, a
namespace or a member that is declared twice, a class that is reopened with another superclass, a
line that is no statement, and a file that cannot be read. -/
inductive Rule where
  | undocumentedParameter
  | danglingAlias
  | unknownSuperclass
  | fileNameMismatch
  | duplicateNamespace
  | duplicateMember
  | superclassConflict
  | unrecognizedStatement
  | parseError
  deriving DecidableEq, Repr

namespace Rule

def all : List Rule :=
  [undocumentedParameter, danglingAlias, unknownSuperclass, fileNameMismatch, duplicateNamespace,
    duplicateMember, superclassConflict, unrecognizedStatement, parseError]

def name : Rule → String
  | undocumentedParameter => "undocumented-parameter"
  | danglingAlias => "dangling-alias"
  | unknownSuperclass => "unknown-superclass"
  | fileNameMismatch => "file-name-mismatch"
  | duplicateNamespace => "duplicate-namespace"
  | duplicateMember => "duplicate-member"
  | superclassConflict => "superclass-conflict"
  | unrecognizedStatement => "unrecognized-statement"
  | parseError => "parse-error"

def severity : Rule → Severity
  | undocumentedParameter | fileNameMismatch | unrecognizedStatement => .warning
  | danglingAlias | unknownSuperclass | duplicateNamespace | duplicateMember
  | superclassConflict | parseError => .error

def names : List String := all.map name

end Rule

structure UnknownRule where
  name : String
  deriving DecidableEq, Repr

def UnknownRule.message (e : UnknownRule) : String :=
  let available := ", ".intercalate Rule.names
  s!"Unknown lint rule: {Text.quoted e.name}. Available rules: {available}"

/-- The rules that are named, or all if none is, without the disabled ones. Every name must be the
name of a rule. -/
def selectRules (rules disabled : List String) : Except UnknownRule (List Rule) :=
  match (rules ++ disabled).find? fun n => !Rule.names.contains n with
  | some n => .error ⟨n⟩
  | none =>
    .ok (Rule.all.filter fun r =>
      (rules.isEmpty || rules.contains r.name) && !disabled.contains r.name)

end RubyIndex.Lint
