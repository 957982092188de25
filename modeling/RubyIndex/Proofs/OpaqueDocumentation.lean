import RubyIndex.Proofs.FaultIsolation
import RubyIndex.Proofs.SelectedRules
import RubyIndex.Proofs.UndocumentedFindings

/-! Documentation is opaque. Texts that differ in what their comments say are refused alike or
declare the same apart from documentation, and nothing that is found in them tells them apart but
the parameters that documentation should mention. -/
namespace RubyIndex

def IsComment (raw : List Char) : Prop := raw.find? (!Text.isBlank ·) = some '#'

instance (raw : List Char) : Decidable (IsComment raw) := inferInstanceAs (Decidable (_ = _))

/-- The texts have the same lines, but where both have a comment it may say something else. -/
def Recommented (text₁ text₂ : String) : Prop :=
  List.Forall₂ (fun raw₁ raw₂ => raw₁ = raw₂ ∨ IsComment raw₁ ∧ IsComment raw₂)
    (Text.lines text₁.toList) (Text.lines text₂.toList)

variable {text₁ text₂ path : String} {raw : List Char}

/-- Trimming stops at the character that begins the comment. -/
theorem exists_trim_eq_cons (comment : IsComment raw) : ∃ rest, Text.trim raw = '#' :: rest := by
  obtain ⟨-, before, after, rfl, blank⟩ := List.find?_eq_some_iff_append.mp comment
  have left : Text.trimLeft (before ++ '#' :: after) = '#' :: after := by
    rw [Text.trimLeft, List.dropWhile_append_of_pos fun c hc => by simpa using blank c hc]
    rfl
  have stop : ['#'].dropWhile Text.isBlank = ['#'] := rfl
  rw [Text.trim, left, Text.trimRight, List.reverse_cons, List.dropWhile_append, stop]
  split
  · exact ⟨[], rfl⟩
  · exact ⟨_, by rw [List.reverse_append]; rfl⟩

theorem read_of_isComment (comment : IsComment raw) (number : Nat) :
    Line.read number raw = .magic ∨ ∃ text, Line.read number raw = .comment text := by
  obtain ⟨rest, trimmed⟩ := exists_trim_eq_cons comment
  rw [Line.read, trimmed]
  change ite _ _ _ = _ ∨ ∃ text, ite _ _ _ = _
  split
  · exact .inl rfl
  · exact .inr ⟨_, rfl⟩

theorem Reading.undocumentedStep_of_isComment (comment : IsComment raw) (r : Reading)
    (number : Nat) : r.undocumentedStep (raw, number) = .ok r := by
  unfold undocumentedStep
  rcases read_of_isComment comment number with magic | ⟨text, written⟩
  · simp only [magic]
  · simp only [written]

/-- Comments are passed over alike, and so the runs over both texts are one. -/
theorem Reading.foldlM_undocumentedStep_eq {lines₁ lines₂ : List (List Char)}
    (same : List.Forall₂ (fun raw₁ raw₂ => raw₁ = raw₂ ∨ IsComment raw₁ ∧ IsComment raw₂)
      lines₁ lines₂) (number : Nat) (r : Reading) :
    (lines₁.zipIdx number).foldlM undocumentedStep r =
      (lines₂.zipIdx number).foldlM undocumentedStep r := by
  induction same generalizing number r with
  | nil => rfl
  | @cons raw₁ raw₂ lines₁ lines₂ first _ ih =>
    have step : r.undocumentedStep (raw₁, number) = r.undocumentedStep (raw₂, number) := by
      rcases first with rfl | ⟨comment₁, comment₂⟩
      · rfl
      · rw [undocumentedStep_of_isComment comment₁, undocumentedStep_of_isComment comment₂]
    rw [List.zipIdx_cons, List.zipIdx_cons, List.foldlM_cons, List.foldlM_cons, step]
    cases r.undocumentedStep (raw₂, number) with
    | error e => rfl
    | ok r' => exact ih (number + 1) r'

theorem StubFile.map_undocumented_parse_eq (same : Recommented text₁ text₂) (path : String) :
    (StubFile.parse text₁ path).map StubFile.undocumented =
      (StubFile.parse text₂ path).map StubFile.undocumented := by
  rw [map_undocumented_parse, map_undocumented_parse, Reading.foldlM_undocumentedStep_eq same]

namespace Lint

variable {s₁ s₂ : Snapshot}

/-- Two reports that differ at most in undocumented parameters and in how many there are. -/
structure Report.Alike (r₁ r₂ : Report) : Prop where
  version : r₁.version = r₂.version
  files : r₁.files = r₂.files
  findings : r₁.findings.filter (·.rule ≠ .undocumentedParameter) =
    r₂.findings.filter (·.rule ≠ .undocumentedParameter)
  counts : ∀ name n, name ≠ Rule.undocumentedParameter.name →
    ((name, n) ∈ r₁.counts ↔ (name, n) ∈ r₂.counts)
  errors : r₁.errors = r₂.errors
  hasErrors : r₁.hasErrors = r₂.hasErrors
  warnings : ∃ others,
    r₁.warnings = others + (r₁.findings.filter (·.rule = .undocumentedParameter)).length ∧
    r₂.warnings = others + (r₂.findings.filter (·.rule = .undocumentedParameter)).length

theorem errors_eq (r : Report) : r.errors =
    (r.findings.filter (·.rule ≠ .undocumentedParameter)).countP (·.severity == .error) := by
  rw [Report.errors, List.countP_filter]
  refine List.countP_congr fun f _ => ?_
  unfold Finding.severity
  cases f.rule <;> simp [Rule.severity]

theorem warnings_eq (r : Report) : r.warnings =
    (r.findings.filter (·.rule ≠ .undocumentedParameter)).countP (·.severity == .warning) +
      (r.findings.filter (·.rule = .undocumentedParameter)).length := by
  unfold Report.warnings
  induction r.findings with
  | nil => rfl
  | cons f rest ih =>
    rw [List.countP_cons, ih]
    by_cases undocumented : f.rule = .undocumentedParameter
    · have warning : (f.severity == .warning) = true := by
        rw [Finding.severity, undocumented]
        rfl
      rw [List.filter_cons_of_neg (by simpa using undocumented),
        List.filter_cons_of_pos (by simpa using undocumented), List.length_cons, if_pos warning]
      omega
    · rw [List.filter_cons_of_pos (by simpa using undocumented),
        List.filter_cons_of_neg (by simpa using undocumented), List.countP_cons]
      omega

/-- The numbers follow the findings. -/
theorem alike_of_findings_eq {r₁ r₂ : Report} (version : r₁.version = r₂.version)
    (files : r₁.files = r₂.files)
    (findings : r₁.findings.filter (·.rule ≠ .undocumentedParameter) =
      r₂.findings.filter (·.rule ≠ .undocumentedParameter)) : r₁.Alike r₂ := by
  have errors : r₁.errors = r₂.errors := by rw [errors_eq, errors_eq, findings]
  constructor
  · exact version
  · exact files
  · exact findings
  · intro name n other
    have named (r : Report) : (r.findings.filter fun f => f.rule.name = name) =
        (r.findings.filter (·.rule ≠ .undocumentedParameter)).filter
          fun f => f.rule.name = name := by
      rw [List.filter_filter]
      refine List.filter_congr fun f _ => ?_
      by_cases same : f.rule.name = name
      · have apart : f.rule ≠ .undocumentedParameter := by
          intro undocumented
          exact other (by rw [← same, undocumented])
        simp [same, apart]
      · simp [same]
    rw [Report.mem_counts_iff, Report.mem_counts_iff, named r₁, named r₂, findings]
  · exact errors
  · rw [Report.hasErrors, Report.hasErrors, errors]
  · refine ⟨_, warnings_eq r₁, ?_⟩
    rw [findings]
    exact warnings_eq r₂

theorem report_alike (same : s₁.undocumented = s₂.undocumented) (selected : List Rule) :
    (Report.ofFindings s₁ (selected.flatMap fun r => r.check s₁)).Alike
      (Report.ofFindings s₂ (selected.flatMap fun r => r.check s₂)) := by
  have others (s : Snapshot) : (selected.flatMap fun r => r.check s).filter
      (fun f => f.rule ≠ .undocumentedParameter) =
      (selected.filter (· ≠ .undocumentedParameter)).flatMap fun r => r.check s.undocumented := by
    rw [filter_flatMap_check s (fun r => r ≠ .undocumentedParameter)]
    refine List.flatMap_congr fun r listed => ?_
    have other := (List.mem_filter.mp listed).2
    exact (check_undocumented (by simpa using other) s).symm
  have lengths : s₁.files.length = s₂.files.length := by
    have files := congrArg (·.files.length) same
    simpa [Snapshot.undocumented] using files
  apply alike_of_findings_eq
  · exact congrArg (·.version) same
  · have errors : s₁.errors = s₂.errors := congrArg (·.errors) same
    simp only [Report.ofFindings, lengths, errors]
  · simp only [Report.ofFindings]
    rw [filter_mergeSort Finding.before_trans Finding.before_total,
      filter_mergeSort Finding.before_trans Finding.before_total, others, others, same]

/-- Snapshots that are the same without documentation are reported on alike. -/
theorem lint_alike (same : s₁.undocumented = s₂.undocumented) (rules disabled : List String) :
    (∃ e, lint s₁ rules disabled = .error e ∧ lint s₂ rules disabled = .error e) ∨
      ∃ r₁ r₂, lint s₁ rules disabled = .ok r₁ ∧ lint s₂ rules disabled = .ok r₂ ∧ r₁.Alike r₂ := by
  unfold lint
  cases selectRules rules disabled with
  | error e => exact .inl ⟨e, rfl, rfl⟩
  | ok selected => exact .inr ⟨_, _, rfl, rfl, report_alike same selected⟩

end Lint

namespace Corpus

variable {c : Corpus} {v : Version} {t₁ t₂ : FileTree} {a b : Path × Node}

structure RecommentedEntry (a b : Path × Node) : Prop where
  path : a.1 = b.1
  node : a.2 = b.2 ∨ ∃ bytes₁ bytes₂ text₁ text₂, a.2 = .file bytes₁ ∧ b.2 = .file bytes₂ ∧
    String.toByteArray text₁ = bytes₁.toByteArray ∧
    String.toByteArray text₂ = bytes₂.toByteArray ∧ Recommented text₁ text₂

def undocumentedResult : StubFile ⊕ FileError → StubFile ⊕ FileError :=
  Sum.map StubFile.undocumented id

theorem loadEntry_recommented (same : RecommentedEntry a b) :
    (c.loadEntry v a).map undocumentedResult = (c.loadEntry v b).map undocumentedResult := by
  obtain ⟨path, node₁⟩ := a
  obtain ⟨path', node₂⟩ := b
  obtain ⟨rfl, rfl | ⟨bytes₁, bytes₂, text₁, text₂, rfl, rfl, encoded₁, encoded₂, texts⟩⟩ := same
  · rfl
  · rw [loadEntry, loadEntry, readStubs_of_encoded encoded₁, readStubs_of_encoded encoded₂]
    rcases alike_of_map_eq (StubFile.map_undocumented_parse_eq texts path.text) with
      ⟨e, parsed₁, parsed₂⟩ | ⟨f₁, f₂, parsed₁, parsed₂, files⟩
    · rw [parsed₁, parsed₂]
      rfl
    · rw [parsed₁, parsed₂]
      exact congrArg (fun f => Except.ok (Sum.inl f)) files

theorem map_mapM_eq {α β γ ε : Type} {act : α → Except ε β} {f : β → γ} {l₁ l₂ : List α}
    (same : List.Forall₂ (fun a b => (act a).map f = (act b).map f) l₁ l₂) :
    (l₁.mapM act).map (List.map f) = (l₂.mapM act).map (List.map f) := by
  induction same with
  | nil => rfl
  | cons first _ ih =>
    rw [List.mapM_cons, List.mapM_cons]
    rcases alike_of_map_eq first with ⟨e, failed₁, failed₂⟩ | ⟨b₁, b₂, done₁, done₂, heads⟩
    · rw [failed₁, failed₂]
      rfl
    · rw [done₁, done₂]
      rcases alike_of_map_eq ih with ⟨e, failed₁, failed₂⟩ | ⟨bs₁, bs₂, done₁, done₂, tails⟩
      · rw [failed₁, failed₂]
        rfl
      · rw [done₁, done₂]
        exact congrArg Except.ok (congrArg₂ List.cons heads tails)

def collected (c : Corpus) (v : Version) (results : List (StubFile ⊕ FileError)) : Snapshot :=
  .ofFiles v (c.snapshotDirectory v) (results.filterMap Sum.getLeft?)
    (results.filterMap Sum.getRight?)

theorem undocumented_collected (results : List (StubFile ⊕ FileError)) :
    (c.collected v results).undocumented = c.collected v (results.map undocumentedResult) := by
  have files : (results.map undocumentedResult).filterMap Sum.getLeft? =
      (results.filterMap Sum.getLeft?).map StubFile.undocumented := by
    rw [List.filterMap_map, List.map_filterMap]
    refine List.filterMap_congr fun r _ => ?_
    cases r <;> rfl
  have errors : (results.map undocumentedResult).filterMap Sum.getRight? =
      results.filterMap Sum.getRight? := by
    rw [List.filterMap_map]
    refine List.filterMap_congr fun r _ => ?_
    cases r <;> rfl
  rw [collected, collected, files, errors]
  simp only [Snapshot.undocumented, Snapshot.ofFiles, SymbolTable.undocumented_ofFiles]

theorem load_recommented
    (entries : List.Forall₂ RecommentedEntry (c.stubEntries t₁ v) (c.stubEntries t₂ v)) :
    (c.load t₁ v).map Snapshot.undocumented = (c.load t₂ v).map Snapshot.undocumented := by
  have each : List.Forall₂ (fun a b => (c.loadEntry v a).map undocumentedResult =
      (c.loadEntry v b).map undocumentedResult) (c.stubEntries t₁ v) (c.stubEntries t₂ v) :=
    entries.imp fun _ _ same => loadEntry_recommented same
  unfold load
  rcases alike_of_map_eq (map_mapM_eq each) with
    ⟨e, failed₁, failed₂⟩ | ⟨results₁, results₂, done₁, done₂, same⟩
  · rw [failed₁, failed₂]
  · rw [done₁, done₂]
    change Except.ok (c.collected v results₁).undocumented =
      Except.ok (c.collected v results₂).undocumented
    rw [undocumented_collected, undocumented_collected, same]

/-- What comments say reaches nothing but documentation: texts that differ in it are refused alike
or declare the same apart from documentation, and so do whole snapshots, of which reports are made
that differ at most in undocumented parameters. -/
theorem documentation_opaque :
    (∀ text₁ text₂ path, Recommented text₁ text₂ →
      (∃ e, StubFile.parse text₁ path = .error e ∧ StubFile.parse text₂ path = .error e) ∨
        ∃ f₁ f₂, StubFile.parse text₁ path = .ok f₁ ∧ StubFile.parse text₂ path = .ok f₂ ∧
          f₁.undocumented = f₂.undocumented) ∧
      ∀ (c : Corpus) (t₁ t₂ : FileTree) (v : Version),
        List.Forall₂ RecommentedEntry (c.stubEntries t₁ v) (c.stubEntries t₂ v) →
        (∃ e, c.load t₁ v = .error e ∧ c.load t₂ v = .error e) ∨
          ∃ s₁ s₂, c.load t₁ v = .ok s₁ ∧ c.load t₂ v = .ok s₂ ∧
            s₁.undocumented = s₂.undocumented ∧ ∀ rules disabled,
              (∃ e, Lint.lint s₁ rules disabled = .error e ∧
                Lint.lint s₂ rules disabled = .error e) ∨
              ∃ r₁ r₂, Lint.lint s₁ rules disabled = .ok r₁ ∧
                Lint.lint s₂ rules disabled = .ok r₂ ∧ r₁.Alike r₂ := by
  constructor
  · intro text₁ text₂ path texts
    exact alike_of_map_eq (StubFile.map_undocumented_parse_eq texts path)
  · intro c t₁ t₂ v entries
    rcases alike_of_map_eq (load_recommented entries) with failed | ⟨s₁, s₂, loaded₁, loaded₂, same⟩
    · exact .inl failed
    · exact .inr ⟨s₁, s₂, loaded₁, loaded₂, same, Lint.lint_alike same⟩

def plainText : String :=
  "# encoding: utf-8\nclass Circle\n  # Draws it.\n  def draw(pen); end\nend\n"

def oddText : String :=
  "# end\nclass Circle\n  # def draw(pen)\n  def draw(pen); end\nend\n"

def circlePath : Path := { parts := ["stubs", "rubystubs33", "circle.rb"] }

def circleTree (text : String) : FileTree :=
  ({} : FileTree).writeFile circlePath.parts (text.toList.flatMap String.utf8EncodeChar)

theorem stubEntries_singleton {t : FileTree} {rest : List String} {node : Node}
    (below : t.below (c.snapshotDirectory v) = [(rest, node)])
    (named : rest.getLast?.any isStubName = true) :
    c.stubEntries t v = [((c.snapshotDirectory v).append rest, node)] := by
  have kept : [(rest, node)].filter (fun e => e.1.getLast?.any isStubName) = [(rest, node)] := by
    simp [named]
  unfold stubEntries
  dsimp only
  rw [below, kept, List.mergeSort_singleton]
  rfl

theorem exists_load_circleTree {text : String} {bytes : List UInt8}
    (entries : stubsCorpus.stubEntries (circleTree text) ⟨3, 3⟩ = [(circlePath, .file bytes)]) :
    ∃ s, stubsCorpus.load (circleTree text) ⟨3, 3⟩ = .ok s := by
  have inputs : stubsCorpus.stubEntries (circleTree text) ⟨3, 3⟩ =
      [(circlePath, bytes)].map fileEntry := entries
  exact ⟨_, load_eq_separated inputs fun e _ => loadEntry_lenient e⟩

theorem circle_documentation_opaque :
    (∃ f₁ f₂, StubFile.parse plainText "circle.rb" = .ok f₁ ∧
      StubFile.parse oddText "circle.rb" = .ok f₂ ∧ f₁.undocumented = f₂.undocumented) ∧
    ∃ s₁ s₂ r₁ r₂, stubsCorpus.load (circleTree plainText) ⟨3, 3⟩ = .ok s₁ ∧
      stubsCorpus.load (circleTree oddText) ⟨3, 3⟩ = .ok s₂ ∧
      Lint.lint s₁ [] [] = .ok r₁ ∧ Lint.lint s₂ [] [] = .ok r₂ ∧ r₁.Alike r₂ := by
  have texts : Recommented plainText oddText := by
    unfold Recommented
    decide
  have encoded (text : String) :
      text.toByteArray = (text.toList.flatMap String.utf8EncodeChar).toByteArray := by
    have bytes : (String.ofList text.toList).toByteArray = text.toList.utf8Encode :=
      String.toByteArray_ofList
    rwa [String.ofList_toList] at bytes
  have below₁ : (circleTree plainText).below (stubsCorpus.snapshotDirectory ⟨3, 3⟩) =
      [(["circle.rb"], .file (plainText.toList.flatMap String.utf8EncodeChar))] := by
    decide
  have below₂ : (circleTree oddText).below (stubsCorpus.snapshotDirectory ⟨3, 3⟩) =
      [(["circle.rb"], .file (oddText.toList.flatMap String.utf8EncodeChar))] := by
    decide
  have entries₁ := stubEntries_singleton below₁ (by decide)
  have entries₂ := stubEntries_singleton below₂ (by decide)
  have same : List.Forall₂ RecommentedEntry (stubsCorpus.stubEntries (circleTree plainText) ⟨3, 3⟩)
      (stubsCorpus.stubEntries (circleTree oddText) ⟨3, 3⟩) := by
    rw [entries₁, entries₂]
    exact .cons ⟨rfl, .inr ⟨_, _, _, _, rfl, rfl, encoded plainText, encoded oddText, texts⟩⟩ .nil
  constructor
  · rcases documentation_opaque.1 _ _ "circle.rb" texts with ⟨e, refused, -⟩ | read
    · have parsed : (StubFile.parse plainText "circle.rb").isOk = true := by decide
      rw [refused] at parsed
      cases parsed
    · exact read
  · obtain ⟨s, loaded⟩ := exists_load_circleTree entries₁
    rcases documentation_opaque.2 _ _ _ _ same with ⟨e, failed, -⟩ | ⟨s₁, s₂, ok₁, ok₂, -, reports⟩
    · rw [loaded] at failed
      cases failed
    · rcases reports [] [] with ⟨e, unknown, -⟩ | ⟨r₁, r₂, lint₁, lint₂, alike⟩
      · rw [Lint.lint_eq (by simp)] at unknown
        cases unknown
      · exact ⟨s₁, s₂, r₁, r₂, ok₁, ok₂, lint₁, lint₂, alike⟩

end Corpus

end RubyIndex
