import RubyIndex.Lint.Rule
import RubyIndex.Snapshot
/-!
Findings of the rules in a snapshot.
-/

namespace RubyIndex.Lint

/-- The path is relative to the directory of the snapshot. -/
structure Finding where
  rule : Rule
  path : String
  line : Nat
  owner : Option String := none
  message : String
  deriving DecidableEq, Repr

namespace Finding

def severity (f : Finding) : Severity := f.rule.severity

def render (f : Finding) : String :=
  s!"{f.path}:{f.line}: {f.severity.text} [{f.rule.name}] {f.message}"

/-- The order of findings in a report: by path, line, and name of the rule. -/
def before (a b : Finding) : Bool :=
  if a.path != b.path then a.path < b.path
  else if a.line != b.line then a.line < b.line
  else a.rule.name ≤ b.rule.name

end Finding

end RubyIndex.Lint
