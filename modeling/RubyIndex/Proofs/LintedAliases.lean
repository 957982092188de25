import RubyIndex.Lint.Check
import RubyIndex.Proofs.AnsweredNames

/-! Aliases that the linter has nothing to say about. The linter looks for the old name of an alias
in the merged namespace, when all its statements have been passed over. An alias whose old name
comes in use only after the last pass over it is not recorded, and is lost without a finding. -/
namespace RubyIndex

namespace Lint

def danglingFinding (s : Snapshot) (f : StubFile) (n : Namespace) (a : Alias) : Finding where
  rule := .danglingAlias
  path := s.relativePath f.path
  line := a.line
  owner := some n.qualifiedName
  message := s!"\x60alias {a.newName} {a.oldName}\x60 refers to a method " ++
    s!"that is not defined in {n.qualifiedName}"

/-- An alias without a finding has an old name that the merged namespace answers to. -/
theorem answered_of_clean {s : Snapshot} {f : StubFile} {n merged : Namespace} {a : Alias}
    (hf : f ∈ s.files) (hn : n ∈ f.namespaces) (ha : a ∈ n.aliases)
    (clean : danglingFinding s f n a ∉ Rule.danglingAlias.check s)
    (found : s.table.get? n.qualifiedName = some merged) :
    Answered merged.methods a.receiver a.oldName := by
  have defined : isDefined s n a = true := by
    by_contra missing
    refine clean (List.mem_flatMap.mpr ⟨(f, n), ?_, List.mem_map.mpr ⟨a, ?_, rfl⟩⟩)
    · exact List.mem_flatMap.mpr ⟨f, hf, List.mem_map.mpr ⟨n, hn, rfl⟩⟩
    · exact List.mem_filter.mpr ⟨ha, by simpa using missing⟩
  rw [isDefined, found] at defined
  exact findMethod?_isSome_iff.mp defined

end Lint

namespace SymbolTable

variable {files : List StubFile} {f : StubFile} {n : Namespace}

/-- Each declaration of a file is merged into the namespace of its name, alias statements and
all. -/
theorem get?_of_declared (parsed : ∀ f ∈ files, f.Parsed) (hf : f ∈ files)
    (hn : n ∈ f.namespaces) : ∃ merged, (ofFiles files).get? n.qualifiedName = some merged ∧
      mergeAll ((ofFiles files).declarations n.qualifiedName) = some merged ∧
      ∀ a ∈ n.aliases, a ∈ merged.aliases := by
  have named := ((parsed f hf).read n hn).named
  have listed : n ∈ (ofFiles files).declarations n.qualifiedName :=
    mem_declarations_iff.mpr ⟨⟨f, hf, hn⟩, rfl⟩
  obtain ⟨first, later, eq⟩ := List.exists_cons_of_ne_nil (List.ne_nil_of_mem listed)
  obtain ⟨merged, all, from_declarations⟩ := mergeAll_merged first later
  refine ⟨merged, ?_, by rw [eq, all], fun a ha => ?_⟩
  · rw [get?, dropRoot_of_capitalized named, find?_ofFiles, eq, all]
  · rw [from_declarations.aliases, ← eq]
    exact List.mem_flatMap.mpr ⟨n, listed, ha⟩

/-- An alias without a finding is found exactly if its new name is in use after the passes over the
statements of its namespace. That is so if its old name is the name of a method, or if no statement
after it brings the old name. -/
theorem clean_alias_found_iff_inUse (parsed : ∀ f ∈ files, f.Parsed) (version : Version)
    (directory : Path) (errors : List FileError) (hf : f ∈ files) (hn : n ∈ f.namespaces)
    {a : Alias} (ha : a ∈ n.aliases)
    (clean : Lint.danglingFinding (Snapshot.ofFiles version directory files errors) f n a ∉
      Lint.Rule.danglingAlias.check (Snapshot.ofFiles version directory files errors)) :
    ∃ merged, (ofFiles files).get? n.qualifiedName = some merged ∧
      ((merged.findMethod? a.newName a.receiver).isSome = true ↔
        a.newName ∈ namesInUse a.receiver ((ofFiles files).declarations n.qualifiedName)) ∧
      ((∃ m ∈ merged.methods, m.receiver = a.receiver ∧ m.name = a.oldName) →
        (merged.findMethod? a.newName a.receiver).isSome = true) ∧
      ((∃ before after, merged.aliases = before ++ a :: after ∧
          ∀ b ∈ after, b.receiver = a.receiver → b.newName ≠ a.oldName) →
        (merged.findMethod? a.newName a.receiver).isSome = true) := by
  obtain ⟨merged, found, all, statements⟩ := get?_of_declared parsed hf hn
  have read := read_declarations parsed n.qualifiedName
  have inUse := Lint.answered_of_clean hf hn ha clean found
  obtain ⟨methods, recorded⟩ := recorded_mergeAll read all
  refine ⟨merged, found, ?_, ?_, ?_⟩
  · rw [findMethod?_isSome_iff]
    exact answered_mergeAll_iff read all a.newName
  · rintro ⟨m, hm, receiver, name⟩
    obtain ⟨before, after, eq⟩ := List.mem_iff_append.mp (statements a ha)
    rw [recorded] at hm
    have named := answered_applyAliases (answered_of_mem_applyAliases hm) before
    rw [receiver, name] at named
    rw [findMethod?_isSome_iff, recorded, eq]
    exact answered_of_pass named after
  · rintro ⟨before, after, eq, apart⟩
    rw [findMethod?_isSome_iff]
    have settled := Alias.settled_applyAliases apart methods before
    rw [← eq, ← recorded] at settled
    exact settled.answered inUse

def splitFiles : List StubFile :=
  [{ path := "string.rb",
     namespaces :=
       [{ kind := .klass, name := "String", qualifiedName := "String", path := "string.rb",
          line := 1, methods := [{ name := "length", line := 2 }] }] },
   { path := "string_aliases.rb",
     namespaces :=
       [{ kind := .klass, name := "String", qualifiedName := "String",
          path := "string_aliases.rb", line := 1, aliases := [⟨"size", "length", .inst, 2⟩] }] }]

def splitSnapshot : Snapshot := .ofFiles ⟨3, 3⟩ { parts := ["stubs"] } splitFiles []

theorem parsed_splitFiles : ∀ f ∈ splitFiles, f.Parsed := by
  have declared : (StubFile.parse "class String\ndef length; end\nend" "string.rb").toOption =
      splitFiles[0]? := by decide
  have aliased : (StubFile.parse "class String\nalias size length\nend"
      "string_aliases.rb").toOption = splitFiles[1]? := by decide
  intro f hf
  rcases List.mem_cons.mp hf with rfl | hf
  · exact ⟨_, _, toOption_eq_some_iff.mp declared⟩
  · obtain rfl := List.mem_singleton.mp hf
    exact ⟨_, _, toOption_eq_some_iff.mp aliased⟩

theorem split_alias_found : Lint.Rule.danglingAlias.check splitSnapshot = [] ∧
    ∃ merged, (ofFiles splitFiles).get? "String" = some merged ∧
      (merged.findMethod? "size" .inst).isSome = true := by
  have clean : Lint.Rule.danglingAlias.check splitSnapshot = [] := by cbv
  obtain ⟨merged, found, inUse, -⟩ := clean_alias_found_iff_inUse parsed_splitFiles ⟨3, 3⟩
    { parts := ["stubs"] } [] (f := splitFiles[1]) (n := splitFiles[1].namespaces[0])
    (a := ⟨"size", "length", .inst, 2⟩) (by simp [splitFiles]) (by simp [splitFiles])
    (by simp [splitFiles]) (by rw [← splitSnapshot, clean]; exact List.not_mem_nil)
  exact ⟨clean, merged, found, inUse.mpr (by decide)⟩

/-- A class with an alias for a name that only the alias after it brings. -/
def forwardText : String :=
  "class Shape\ndef draw; end\nalias paint sketch\nalias sketch draw\nend"

def forwardFile : StubFile where
  path := "shape.rb"
  namespaces :=
    [{ kind := .klass, name := "Shape", qualifiedName := "Shape", path := "shape.rb", line := 1,
       methods := [{ name := "draw", line := 2, aliases := ["sketch"] }],
       aliases := [⟨"paint", "sketch", .inst, 3⟩, ⟨"sketch", "draw", .inst, 4⟩] }]

/-- The linter finds nothing, and yet a call by the first alias does not reach a method. -/
theorem forward_alias_clean_not_found :
    (StubFile.parse forwardText "shape.rb").toOption = some forwardFile ∧
      Lint.Rule.danglingAlias.check
        (.ofFiles ⟨3, 3⟩ { parts := ["stubs"] } [forwardFile] []) = [] ∧
      ((ofFiles [forwardFile]).get? "Shape").map (·.findMethod? "paint" .inst) = some none := by
  refine ⟨by decide, by cbv, by cbv⟩

end SymbolTable

end RubyIndex
