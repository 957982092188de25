import RubyIndex.Lint.Check
/-!
Reports: the findings of some rules in a snapshot, in order, and their numbers.
-/

namespace RubyIndex.Lint

/-- `files` counts the files that could not be read too. -/
structure Report where
  version : Version
  files : Nat
  findings : List Finding
  deriving DecidableEq, Repr

namespace Report

def ofFindings (s : Snapshot) (findings : List Finding) : Report :=
  ⟨s.version, s.files.length + s.errors.length, findings.mergeSort Finding.before⟩

def counts (r : Report) : List (String × Nat) :=
  (sortOn id (keepFirst id (r.findings.map (·.rule.name)))).map fun name =>
    (name, r.findings.countP (·.rule.name == name))

def errors (r : Report) : Nat := r.findings.countP (·.severity == .error)

def warnings (r : Report) : Nat := r.findings.countP (·.severity == .warning)

def hasErrors (r : Report) : Bool := 0 < r.errors

def render (r : Report) : String :=
  let summary :=
    s!"Ruby {r.version.text}: {r.files} files, {r.errors} errors, {r.warnings} warnings"
  "\n".intercalate (r.findings.map (·.render) ++ [summary])

end Report

def lint (s : Snapshot) (rules disabled : List String) : Except UnknownRule Report := do
  let selected ← selectRules rules disabled
  .ok (Report.ofFindings s (selected.flatMap fun r => r.check s))

end RubyIndex.Lint
