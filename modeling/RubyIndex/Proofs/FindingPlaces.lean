import RubyIndex.Proofs.ModuleSuperclasses
import RubyIndex.Proofs.NamespaceOwners
import RubyIndex.Proofs.StatementLines

/-! Where the findings of a snapshot point. The files and file errors of a snapshot come from texts,
and every rule takes the place of a finding from one of them: from a declaration or a member, from a
line that is no statement, or from the line where reading has failed. No rule takes it from an
implicit class, which has no line. -/
namespace RubyIndex

namespace Path

theorem Normal.text_ne_empty {p : Path} (h : p.Normal) : p.text ≠ "" := by
  intro empty
  have read : p = ofString "" := by rw [← ofString_text h, empty]
  rw [read] at empty
  exact absurd empty (by decide)

theorem eq_empty_of_relativeText {directory : Path} {source : String}
    (h : directory.relativeText source = "") : source = "" := by
  unfold relativeText at h
  cases inside : below? directory (ofString source) with
  | none => rwa [inside] at h
  | some rest =>
    have whole : directory.parts ++ rest = (ofString source).parts := by
      unfold below? at inside
      split at inside
      · exact List.isPrefixOf?_eq_some_iff_append_eq.mp inside
      · cases inside
    have normal : ({ parts := rest } : Path).Normal := fun part hpart =>
      normal_ofString source part (whole ▸ List.mem_append_right _ hpart)
    rw [inside] at h
    exact absurd h normal.text_ne_empty

end Path

structure Source where
  path : String
  text : String
  deriving DecidableEq, Repr

namespace Source

def parse (source : Source) : Except ParseError StubFile := StubFile.parse source.text source.path

def lineCount (source : Source) : Nat := StubFile.lineCount source.text

def fault? (source : Source) : Option FileError :=
  match source.parse with
  | .ok _ => none
  | .error e => some ⟨source.path, e.line, e.reason⟩

def HasLine (sources : List Source) (path : String) (line : Nat) : Prop :=
  ∃ source ∈ sources, source.path = path ∧ IsLine source.lineCount line

end Source

namespace Snapshot

/-- The snapshot of the sources that can be read, with a file error for each of the others. -/
def ofSources (version : Version) (directory : Path) (sources : List Source) : Snapshot :=
  .ofFiles version directory (sources.filterMap (·.parse.toOption)) (sources.filterMap (·.fault?))

structure ReadFrom (s : Snapshot) (sources : List Source) : Prop where
  table : s.table = SymbolTable.ofFiles s.files
  files : ∀ f ∈ s.files, ∃ source ∈ sources, source.parse = .ok f
  errors : ∀ e ∈ s.errors, ∃ source ∈ sources, ∃ fault, source.parse = .error fault ∧
    e = ⟨source.path, fault.line, fault.reason⟩

theorem readFrom_ofSources (version : Version) (directory : Path) (sources : List Source) :
    (ofSources version directory sources).ReadFrom sources := by
  refine ⟨rfl, ?_, ?_⟩
  · intro f hf
    obtain ⟨source, hs, parsed⟩ := List.mem_filterMap.mp hf
    exact ⟨source, hs, toOption_eq_some_iff.mp parsed⟩
  · intro e he
    obtain ⟨source, hs, failed⟩ := List.mem_filterMap.mp he
    unfold Source.fault? at failed
    split at failed
    · cases failed
    · next fault eq =>
      cases failed
      exact ⟨source, hs, fault, eq, rfl⟩

/-- Each source is one of the files or of the file errors. -/
theorem listed_ofSources (version : Version) (directory : Path) {sources : List Source}
    {source : Source} (hs : source ∈ sources) :
    source.path ∈ (ofSources version directory sources).files.map (·.path) ++
      (ofSources version directory sources).errors.map (·.path) := by
  cases read : source.parse with
  | ok f =>
    refine List.mem_append_left _ (List.mem_map.mpr ⟨f, ?_, (StubFile.path_of_parse read).1⟩)
    exact List.mem_filterMap.mpr ⟨source, hs, by rw [read]; rfl⟩
  | error e =>
    refine List.mem_append_right _ (List.mem_map.mpr ⟨⟨source.path, e.line, e.reason⟩, ?_, rfl⟩)
    exact List.mem_filterMap.mpr ⟨source, hs, by simp [Source.fault?, read]⟩

namespace ReadFrom

variable {s : Snapshot} {sources : List Source} {f : StubFile} {n : Namespace}

theorem parsed (h : s.ReadFrom sources) (hf : f ∈ s.files) : f.Parsed := by
  obtain ⟨source, -, parsed⟩ := h.files f hf
  exact ⟨source.text, source.path, parsed⟩

theorem placed (h : s.ReadFrom sources) (hf : f ∈ s.files) :
    ∃ source ∈ sources, source.path = f.path ∧ f.Placed source.lineCount := by
  obtain ⟨source, hs, parsed⟩ := h.files f hf
  exact ⟨source, hs, (StubFile.path_of_parse parsed).1.symm, StubFile.placed_of_parse parsed⟩

theorem hasLine_diagnostic (h : s.ReadFrom sources) (hf : f ∈ s.files) {d : Diagnostic}
    (hd : d ∈ f.diagnostics) : Source.HasLine sources f.path d.line := by
  obtain ⟨source, hs, place, placed⟩ := h.placed hf
  exact ⟨source, hs, place, placed.diagnostics d hd⟩

theorem hasLine_error (h : s.ReadFrom sources) {e : FileError} (he : e ∈ s.errors) :
    Source.HasLine sources e.path e.line := by
  obtain ⟨source, hs, fault, failed, rfl⟩ := h.errors e he
  exact ⟨source, hs, rfl, StubFile.line_of_parse_error failed⟩

theorem hasLine_method (h : s.ReadFrom sources) (hf : f ∈ s.files) (hn : n ∈ f.namespaces)
    {m : Method} (hm : m ∈ n.methods) : Source.HasLine sources f.path m.line := by
  obtain ⟨source, hs, place, placed⟩ := h.placed hf
  exact ⟨source, hs, place, (placed.namespaces n hn).methods m hm⟩

theorem hasLine_constant (h : s.ReadFrom sources) (hf : f ∈ s.files) (hn : n ∈ f.namespaces)
    {c : Constant} (hc : c ∈ n.constants) : Source.HasLine sources f.path c.line := by
  obtain ⟨source, hs, place, placed⟩ := h.placed hf
  exact ⟨source, hs, place, (placed.namespaces n hn).constants c hc⟩

theorem hasLine_alias (h : s.ReadFrom sources) (hf : f ∈ s.files) (hn : n ∈ f.namespaces)
    {a : Alias} (ha : a ∈ n.aliases) : Source.HasLine sources f.path a.line := by
  obtain ⟨source, hs, place, placed⟩ := h.placed hf
  exact ⟨source, hs, place, (placed.namespaces n hn).aliases a ha⟩

theorem hasLine_explicit (h : s.ReadFrom sources) (hf : f ∈ s.files) (hn : n ∈ f.namespaces)
    (explicit : n.implicit = false) : Source.HasLine sources f.path n.line := by
  obtain ⟨source, hs, place, placed⟩ := h.placed hf
  exact ⟨source, hs, place, (placed.namespaces n hn).opened explicit⟩

/-- An implicit class names no superclass. -/
theorem hasLine_superclass (h : s.ReadFrom sources) (hf : f ∈ s.files) (hn : n ∈ f.namespaces)
    {superclass : String} (named : n.superclass = some superclass) :
    Source.HasLine sources f.path n.line :=
  h.hasLine_explicit hf hn (((h.parsed hf).kinded n hn).superclass superclass named).2

theorem hasLine_primary (h : s.ReadFrom sources) (hf : f ∈ s.files)
    (primary : f.primary? = some n) : Source.HasLine sources f.path n.line := by
  have listed : n ∈ f.namespaces.filter (!·.implicit) := by
    unfold StubFile.primary? at primary
    rcases Option.or_eq_some_iff.mp primary with top | ⟨-, first⟩
    · exact List.mem_of_find?_eq_some top
    · exact List.mem_of_mem_head? first
  obtain ⟨hn, explicit⟩ := List.mem_filter.mp listed
  exact h.hasLine_explicit hf hn (by simpa using explicit)

theorem file_of_declared (h : s.ReadFrom sources) (hn : n ∈ s.table.declared) :
    ∃ f ∈ s.files, n ∈ f.namespaces ∧ n.path = f.path := by
  rw [h.table, (SymbolTable.logged_ofFiles s.files).declared] at hn
  obtain ⟨f, hf, hn⟩ := List.mem_flatMap.mp hn
  exact ⟨f, hf, hn, (h.parsed hf).path n hn⟩

theorem hasLine_member (h : s.ReadFrom sources) (hn : n ∈ s.table.declared) {m : Lint.Member}
    (hm : m ∈ Lint.membersOf n) : Source.HasLine sources m.path m.line := by
  obtain ⟨f, hf, hn, place⟩ := h.file_of_declared hn
  rcases List.mem_append.mp hm with hm | hm
  · obtain ⟨method, hmethod, rfl⟩ := List.mem_map.mp hm
    exact place ▸ h.hasLine_method hf hn hmethod
  · obtain ⟨constant, hconstant, rfl⟩ := List.mem_map.mp hm
    exact place ▸ h.hasLine_constant hf hn hconstant

theorem hasLine_conflict (h : s.ReadFrom sources) {c : SuperclassConflict}
    (hc : c ∈ s.table.conflicts) : Source.HasLine sources c.path c.line := by
  rw [h.table, (SymbolTable.logged_ofFiles s.files).conflicts] at hc
  obtain ⟨n, hn, named, place, at_line⟩ := mem_conflictsFrom hc
  rw [← (SymbolTable.logged_ofFiles s.files).declared, ← h.table] at hn
  obtain ⟨f, hf, hn, path⟩ := h.file_of_declared hn
  rw [place, at_line, path]
  exact h.hasLine_superclass hf hn named

end ReadFrom

end Snapshot

namespace Lint

variable {s : Snapshot} {x : Finding}

theorem mem_of_mem_repeated {seen : List String} {members : List Member} {m : Member}
    (h : m ∈ repeated seen members) : m ∈ members := by
  induction members generalizing seen with
  | nil => exact h
  | cons first rest ih =>
    unfold repeated at h
    split at h
    · exact (List.mem_cons.mp h).elim (fun same => same ▸ List.mem_cons_self)
        fun later => List.mem_cons_of_mem _ (ih later)
    · exact List.mem_cons_of_mem _ (ih h)

theorem mem_declarationSites_iff {f : StubFile} {n : Namespace} :
    (f, n) ∈ declarationSites s ↔ f ∈ s.files ∧ n ∈ f.namespaces := by
  simp [declarationSites]

/-- Each rule takes the path and the line of a finding from a line of a source. -/
theorem hasLine_of_mem_check {sources : List Source} {r : Rule} (h : s.ReadFrom sources)
    (found : x ∈ r.check s) :
    ∃ path, x.path = s.relativePath path ∧ Source.HasLine sources path x.line := by
  cases r with
  | undocumentedParameter =>
    obtain ⟨⟨f, n⟩, site, found⟩ := List.mem_flatMap.mp found
    obtain ⟨m, hm, found⟩ := List.mem_flatMap.mp found
    obtain ⟨p, -, rfl⟩ := List.mem_map.mp found
    obtain ⟨hf, hn⟩ := mem_declarationSites_iff.mp site
    exact ⟨f.path, rfl, h.hasLine_method hf hn hm⟩
  | danglingAlias =>
    obtain ⟨⟨f, n⟩, site, found⟩ := List.mem_flatMap.mp found
    obtain ⟨a, ha, rfl⟩ := List.mem_map.mp found
    obtain ⟨hf, hn⟩ := mem_declarationSites_iff.mp site
    exact ⟨f.path, rfl, h.hasLine_alias hf hn (List.mem_of_mem_filter ha)⟩
  | unknownSuperclass =>
    obtain ⟨⟨f, n⟩, site, found⟩ := List.mem_filterMap.mp found
    obtain ⟨superclass, named, found⟩ := Option.bind_eq_some_iff.mp found
    obtain ⟨hf, hn⟩ := mem_declarationSites_iff.mp site
    split at found
    · cases found
    · cases found
      exact ⟨f.path, rfl, h.hasLine_superclass hf hn named⟩
  | fileNameMismatch =>
    obtain ⟨f, hf, found⟩ := List.mem_filterMap.mp found
    obtain ⟨n, primary, found⟩ := Option.bind_eq_some_iff.mp found
    dsimp only at found
    split at found
    · cases found
    · cases found
      exact ⟨f.path, rfl, h.hasLine_primary hf primary⟩
  | duplicateNamespace =>
    obtain ⟨path, n, first, m, site, -, -, rfl⟩ := mem_duplicates_iff.mp found
    obtain ⟨f, hf, rfl, hn, explicit, -⟩ := mem_topLevelSites_iff.mp site
    exact ⟨f.path, rfl, h.hasLine_explicit hf hn explicit⟩
  | duplicateMember =>
    obtain ⟨name, -, found⟩ := List.mem_flatMap.mp found
    obtain ⟨m, hm, rfl⟩ := List.mem_map.mp found
    obtain ⟨n, hn, hm⟩ := List.mem_flatMap.mp (mem_of_mem_repeated hm)
    exact ⟨m.path, rfl, h.hasLine_member (List.mem_of_mem_filter hn) hm⟩
  | superclassConflict =>
    obtain ⟨c, hc, rfl⟩ := List.mem_map.mp found
    exact ⟨c.path, rfl, h.hasLine_conflict hc⟩
  | unrecognizedStatement =>
    obtain ⟨f, hf, found⟩ := List.mem_flatMap.mp found
    obtain ⟨d, hd, rfl⟩ := List.mem_map.mp found
    exact ⟨f.path, rfl, h.hasLine_diagnostic hf hd⟩
  | parseError =>
    obtain ⟨e, he, rfl⟩ := List.mem_map.mp found
    exact ⟨e.path, rfl, h.hasLine_error he⟩

/-- Every finding points into one of the files or file errors of its snapshot: to a line that the
text of the file has, and to an empty path only if the file itself has one. -/
theorem findings_point_into_sources (version : Version) (directory : Path) (sources : List Source)
    (r : Rule) : ∀ x ∈ r.check (.ofSources version directory sources),
      ∃ source ∈ sources,
        source.path ∈ (Snapshot.ofSources version directory sources).files.map (·.path) ++
          (Snapshot.ofSources version directory sources).errors.map (·.path) ∧
        x.path = (Snapshot.ofSources version directory sources).relativePath source.path ∧
        (source.path ≠ "" → x.path ≠ "") ∧
        1 ≤ x.line ∧ x.line ≤ source.lineCount := by
  intro x found
  obtain ⟨path, place, source, hs, rfl, first, last⟩ :=
    hasLine_of_mem_check (Snapshot.readFrom_ofSources version directory sources) found
  refine ⟨source, hs, Snapshot.listed_ofSources version directory hs, place, ?_, first, last⟩
  intro named empty
  exact named (Path.eq_empty_of_relativeText (place ▸ empty))

def looseSources : List Source :=
  [⟨"stubs/rubystubs33/shape.rb", "def helper; end\nclass Shape < Figure\nend"⟩,
   ⟨"stubs/rubystubs33/open.rb", "\nclass Open\n"⟩]

/-- The superclass is reported where the class is, and the other file where its class is opened. -/
theorem loose_findings_point_into_sources :
    let s := Snapshot.ofSources ⟨3, 3⟩ { parts := ["stubs", "rubystubs33"] } looseSources
    ∃ x ∈ Rule.unknownSuperclass.check s, ∃ y ∈ Rule.parseError.check s,
      (x.path, x.line) = ("shape.rb", 2) ∧ (y.path, y.line) = ("open.rb", 2) ∧
      (∃ source ∈ looseSources, x.path = s.relativePath source.path ∧
        x.line ≤ source.lineCount) ∧
      ∃ source ∈ looseSources, y.path = s.relativePath source.path ∧
        y.line ≤ source.lineCount := by
  intro s
  have superclass : Rule.unknownSuperclass.check s =
      [{ rule := .unknownSuperclass, path := "shape.rb", line := 2, owner := some "Shape",
         message := "Superclass \x60Figure\x60 of Shape is not defined" }] := by decide
  have error : Rule.parseError.check s =
      [{ rule := .parseError, path := "open.rb", line := 2,
         message := "Scope was not closed before the end of the file" }] := by decide
  have points := findings_point_into_sources ⟨3, 3⟩ { parts := ["stubs", "rubystubs33"] }
    looseSources
  have hx := superclass ▸ List.mem_cons_self
  have hy := error ▸ List.mem_cons_self
  obtain ⟨source, hs, -, path, -, -, last⟩ := points .unknownSuperclass _ hx
  obtain ⟨source', hs', -, path', -, -, last'⟩ := points .parseError _ hy
  exact ⟨_, hx, _, hy, rfl, rfl, ⟨source, hs, path, last⟩, source', hs', path', last'⟩

end Lint

end RubyIndex
