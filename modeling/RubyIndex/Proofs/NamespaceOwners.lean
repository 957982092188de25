import RubyIndex.Lint.Check
import RubyIndex.Proofs.LintedAliases
import RubyIndex.Proofs.LoadedFiles
import RubyIndex.Proofs.NearestMethods

/-! Which file a namespace belongs to. The table merges the files of a snapshot in the order of
their paths by components, and the linter goes through them in the order of the paths as texts. A
file in a directory comes before a file beside it that is named for the directory in one order and
after it in the other. The stubs are below the working directory here. -/
namespace RubyIndex

/-- In a sorted list an entry is related to itself and to all that are not before it. -/
theorem related_of_first {α : Type} {R : α → α → Prop} {before after : List α} {a b : α}
    (sorted : (before ++ a :: after).Pairwise R) (refl : R a a)
    (hb : b ∈ before ++ a :: after) (late : b ∉ before) : R a b := by
  rw [List.pairwise_append, List.pairwise_cons] at sorted
  rcases List.mem_cons.mp ((List.mem_append.mp hb).resolve_left late) with rfl | hb
  · exact refl
  · exact sorted.2.1.1 b hb

def Snapshot.Declares (s : Snapshot) (path name : String) : Prop :=
  ∃ f ∈ s.files, f.path = path ∧ ∃ n ∈ f.namespaces, n.qualifiedName = name ∧ n.implicit = false

namespace Lint

variable {s : Snapshot} {path name : String} {n : Namespace} {x : Finding}

def duplicateFinding (s : Snapshot) (first path : String) (n : Namespace) : Finding where
  rule := .duplicateNamespace
  path := s.relativePath path
  line := n.line
  owner := some n.qualifiedName
  message := s!"{n.qualifiedName} is already declared in {s.relativePath first}"

theorem mem_topLevelSites_iff : (path, n) ∈ topLevelSites s ↔
    ∃ f ∈ s.files, f.path = path ∧ n ∈ f.namespaces ∧ n.implicit = false ∧
      n.isTopLevel = true := by
  simp only [topLevelSites, sortOn, List.mem_flatMap, List.mem_mergeSort, List.mem_map,
    List.mem_filter, Prod.mk.injEq]
  constructor
  · rintro ⟨f, hf, d, ⟨hd, explicit⟩, rfl, rfl⟩
    exact ⟨f, hf, rfl, hd, by simpa using explicit⟩
  · rintro ⟨f, hf, rfl, hd, explicit⟩
    exact ⟨f, hf, n, ⟨hd, by simpa using explicit⟩, rfl, rfl⟩

theorem declares_iff (top : (nameSegments name).length = 1) :
    s.Declares path name ↔ ∃ n, (path, n) ∈ topLevelSites s ∧ n.qualifiedName = name := by
  constructor
  · rintro ⟨f, hf, rfl, n, hn, rfl, explicit⟩
    have outer : n.isTopLevel = true := by simp [Namespace.isTopLevel, top]
    exact ⟨n, mem_topLevelSites_iff.mpr ⟨f, hf, rfl, hn, explicit, outer⟩, rfl⟩
  · rintro ⟨n, site, named⟩
    obtain ⟨f, hf, place, hn, explicit, -⟩ := mem_topLevelSites_iff.mp site
    exact ⟨f, hf, place, n, hn, named, explicit⟩

theorem pairwise_topLevelSites (s : Snapshot) :
    (topLevelSites s).Pairwise fun a b => a.1 ≤ b.1 := by
  refine List.pairwise_flatMap.mpr ⟨?_, (pairwise_sortOn (·.path) s.files).imp ?_⟩
  · intro f hf
    exact List.pairwise_map.mpr (List.pairwise_of_forall fun _ _ => String.le_refl _)
  · intro f g le a ha b hb
    obtain ⟨_, -, rfl⟩ := List.mem_map.mp ha
    obtain ⟨_, -, rfl⟩ := List.mem_map.mp hb
    exact le

theorem mem_duplicates_iff : x ∈ Rule.duplicateNamespace.check s ↔
    ∃ path n first m, (path, n) ∈ topLevelSites s ∧
      (topLevelSites s).find? (·.2.qualifiedName == n.qualifiedName) = some (first, m) ∧
      first ≠ path ∧ x = duplicateFinding s first path n := by
  change x ∈ checkNamespaces s ↔ _
  rw [checkNamespaces, List.mem_filterMap]
  constructor
  · rintro ⟨⟨path, n⟩, site, picked⟩
    obtain ⟨⟨first, m⟩, found, picked⟩ := Option.bind_eq_some_iff.mp picked
    by_cases same : first = path
    · simp [same] at picked
    · simp only [same, if_false, Option.some.injEq] at picked
      exact ⟨path, n, first, m, site, found, same, picked.symm⟩
  · rintro ⟨path, n, first, m, site, found, apart, rfl⟩
    exact ⟨_, site, Option.bind_eq_some_iff.mpr ⟨_, found, by simp [apart, duplicateFinding]⟩⟩

/-- The rule reports every declaration outside the file whose path is the first as a text. -/
theorem duplicates_of_declares (top : (nameSegments name).length = 1)
    (declared : s.Declares path name) :
    ∃ first, s.Declares first name ∧ (∀ path, s.Declares path name → first ≤ path) ∧
      ∀ x, x ∈ Rule.duplicateNamespace.check s ∧ x.owner = some name ↔
        ∃ path n, (path, n) ∈ topLevelSites s ∧ n.qualifiedName = name ∧ first ≠ path ∧
          x = duplicateFinding s first path n := by
  obtain ⟨n, site, named⟩ := (declares_iff top).mp declared
  have some_site : ((topLevelSites s).find? (·.2.qualifiedName == name)).isSome = true :=
    List.find?_isSome.mpr ⟨_, site, by simpa using named⟩
  obtain ⟨⟨first, m⟩, found⟩ := Option.isSome_iff_exists.mp some_site
  obtain ⟨same, before, after, split, other⟩ := List.find?_eq_some_iff_append.mp found
  have same : m.qualifiedName = name := by simpa using same
  refine ⟨first, (declares_iff top).mpr ⟨m, List.mem_of_find?_eq_some found, same⟩, ?_, ?_⟩
  · intro path declared
    obtain ⟨n, site, named⟩ := (declares_iff top).mp declared
    have sorted := pairwise_topLevelSites s
    rw [split] at sorted site
    have late : (path, n) ∉ before := fun early =>
      absurd named (by simpa using other _ early)
    have le := related_of_first sorted (String.le_refl _) site late
    exact le
  · intro x
    rw [mem_duplicates_iff]
    constructor
    · rintro ⟨⟨path, d, start, e, site, found', apart, rfl⟩, owner⟩
      have named : d.qualifiedName = name := Option.some.inj owner
      rw [named, found] at found'
      cases found'
      exact ⟨path, d, site, named, apart, rfl⟩
    · rintro ⟨path, d, site, named, apart, rfl⟩
      exact ⟨⟨path, d, first, m, site, by rw [named]; exact found, apart, rfl⟩,
        congrArg some named⟩

end Lint

namespace Snapshot

variable {s : Snapshot} {path name : String} {f g : StubFile}

theorem Arranged.relativePath_injective (h : s.Arranged) (hf : f ∈ s.files) (hg : g ∈ s.files)
    (same : s.relativePath f.path = s.relativePath g.path) : f.path = g.path := by
  obtain ⟨rest, normal, place⟩ := h.placed f hf
  obtain ⟨rest', normal', place'⟩ := h.placed g hg
  rw [place, place', relativePath, relativePath, Path.relativeText_append normal,
    Path.relativeText_append normal'] at same
  have below : ({ parts := rest } : Path).Normal := fun part hpart =>
    normal part (List.mem_append_right _ hpart)
  have below' : ({ parts := rest' } : Path).Normal := fun part hpart =>
    normal' part (List.mem_append_right _ hpart)
  obtain rfl : rest = rest' := congrArg Path.parts (Path.text_injective below below' same)
  rw [place, place']

theorem Arranged.text_ofString (h : s.Arranged) (declared : s.Declares path name) :
    (Path.ofString path).text = path := by
  obtain ⟨f, hf, rfl, -⟩ := declared
  obtain ⟨rest, normal, place⟩ := h.placed f hf
  rw [place, Path.ofString_text normal]

/-- The order of all declarations of a snapshot by the paths of their files. -/
theorem Arranged.declarations_ordered (h : s.Arranged) (name : String) :
    (s.table.declarations name).Pairwise fun d e =>
      Path.partsLe (Path.ofString d.path).parts (Path.ofString e.path).parts = true := by
  rw [h.table, SymbolTable.declarations, (SymbolTable.logged_ofFiles s.files).declared]
  refine (List.pairwise_flatMap.mpr ⟨?_, ?_⟩).sublist List.filter_sublist
  · intro f hf
    refine List.pairwise_of_forall_mem_list ?_
    intro d hd e he
    rw [(h.parsed f hf).path d hd, (h.parsed f hf).path e he]
    exact Path.partsLe_refl _
  · refine h.ordered.imp_of_mem ?_
    intro f g hf hg le d hd e he
    rw [(h.parsed f hf).path d hd, (h.parsed g hg).path e he]
    exact le

theorem Arranged.declares_iff (h : s.Arranged) : s.Declares path name ↔
    ∃ d ∈ s.table.declarations name, d.path = path ∧ d.implicit = false := by
  simp only [h.table, SymbolTable.mem_declarations_iff]
  constructor
  · rintro ⟨f, hf, rfl, d, hd, named, explicit⟩
    exact ⟨d, ⟨⟨f, hf, hd⟩, named⟩, (h.parsed f hf).path d hd, explicit⟩
  · rintro ⟨d, ⟨⟨f, hf, hd⟩, named⟩, rfl, explicit⟩
    exact ⟨f, hf, ((h.parsed f hf).path d hd).symm, d, hd, named, explicit⟩

theorem Arranged.merged (h : s.Arranged) (declared : s.Declares path name) :
    ∃ n, s.table.get? name = some n ∧ mergeAll (s.table.declarations name) = some n := by
  obtain ⟨f, hf, -, m, hm, rfl, -⟩ := declared
  obtain ⟨n, found, all, -⟩ := SymbolTable.get?_of_declared h.parsed hf hm
  rw [← h.table] at found all
  exact ⟨n, found, all⟩

/-- The table names the file that comes first by the components of its path. -/
theorem Arranged.owner (h : s.Arranged) (declared : s.Declares path name) :
    ∃ n, s.table.get? name = some n ∧ s.Declares n.path name ∧
      ∀ path, s.Declares path name →
        Path.partsLe (Path.ofString n.path).parts (Path.ofString path).parts = true := by
  obtain ⟨n, found, all⟩ := h.merged declared
  have sorted := h.declarations_ordered name
  simp only [h.declares_iff] at declared ⊢
  obtain ⟨d, hd, -, explicit⟩ := declared
  obtain ⟨first, later, split⟩ := List.exists_cons_of_ne_nil (List.ne_nil_of_mem hd)
  rw [split] at all sorted hd ⊢
  obtain ⟨_, eq, from_all⟩ := mergeAll_merged first later
  obtain rfl := Option.some.inj (all.symm.trans eq)
  obtain ⟨before, after, order, implicit, declares⟩ := placing_explicit hd explicit
  refine ⟨n, found, ⟨_, by rw [order]; simp, from_all.path.symm, declares⟩, ?_⟩
  rintro path ⟨e, he, rfl, explicit⟩
  rw [order] at sorted he
  rw [from_all.path]
  -- Of the declarations before the placing one none is explicit.
  have late : e ∉ before := fun early => by simp [implicit e early] at explicit
  have le := related_of_first sorted (Path.partsLe_refl _) he late
  exact le

end Snapshot

namespace Corpus

variable {c : Corpus} {t : FileTree} {v : Version} {s : Snapshot} {path name : String}

/-- The rule names the file of the merged namespace, and never reports it, exactly if that file also
comes first by the text of its path. Files in one directory are ordered alike both ways. -/
theorem duplicates_name_owner_iff (proper : t.Proper) (normal : c.directory.Normal)
    (loaded : c.load t v = .ok s) (top : (nameSegments name).length = 1)
    (declared : s.Declares path name) :
    ∃ n, s.table.get? name = some n ∧ s.Declares n.path name ∧
      (∀ path, s.Declares path name →
        Path.partsLe (Path.ofString n.path).parts (Path.ofString path).parts = true) ∧
      ((∀ x ∈ Lint.Rule.duplicateNamespace.check s, x.owner = some name →
          x.message = s!"{name} is already declared in {s.relativePath n.path}" ∧
            x.path ≠ s.relativePath n.path) ↔
        ∀ path, s.Declares path name → n.path ≤ path) ∧
      ((∃ directory : Path, ∀ path, s.Declares path name →
          ∃ file, Path.ofString path = directory.append [file]) →
        ∀ path, s.Declares path name → n.path ≤ path) := by
  have arranged := arranged_load proper normal loaded
  obtain ⟨n, found, owner, by_parts⟩ := arranged.owner declared
  obtain ⟨first, declares, by_text, findings⟩ := Lint.duplicates_of_declares top declared
  refine ⟨n, found, owner, by_parts, ⟨?_, ?_⟩, ?_⟩
  · intro named path declared
    by_cases same : first = n.path
    · exact same ▸ by_text path declared
    · obtain ⟨d, site, of_name⟩ := (Lint.declares_iff top).mp owner
      have reported := (findings _).mpr ⟨n.path, d, site, of_name, same, rfl⟩
      exact absurd rfl (named _ reported.1 reported.2).2
  · intro least x listed named
    obtain rfl : first = n.path := String.le_antisymm (by_text _ owner) (least _ declares)
    obtain ⟨path, d, site, of_name, apart, rfl⟩ := (findings x).mp ⟨listed, named⟩
    refine ⟨by rw [← of_name]; rfl, ?_⟩
    intro same
    obtain ⟨f, hf, rfl, -⟩ := Lint.mem_topLevelSites_iff.mp site
    obtain ⟨g, hg, place, -⟩ := owner
    rw [← place] at apart same
    exact apart (arranged.relativePath_injective hf hg same).symm
  · rintro ⟨directory, siblings⟩ path declared
    obtain ⟨x, hx⟩ := siblings _ owner
    obtain ⟨y, hy⟩ := siblings _ declared
    have le := by_parts path declared
    rw [hx, hy] at le
    have texts := Path.text_append_le le
    rw [← hx, ← hy, arranged.text_ofString owner, arranged.text_ofString declared] at texts
    exact texts

def shapeCorpus : Corpus where
  directory := Path.ofString "stubs"

def shapeBytes : List UInt8 := "class Shape; end".toList.map fun c => c.toNat.toUInt8

def shapeFile (path : String) : StubFile where
  path := path
  namespaces :=
    [{ kind := .klass, name := "Shape", qualifiedName := "Shape", path := path, line := 1 }]

def shapePath (rest : List String) : Path where
  parts := "stubs" :: "rubystubs33" :: rest

def shapeSnapshot (first second : List String) : Snapshot :=
  .ofFiles ⟨3, 3⟩ (shapePath [])
    [shapeFile (shapePath first).text, shapeFile (shapePath second).text] []

theorem load_shapes {first second : List String}
    (files : (t.below (shapePath [])).filter (·.1.getLast?.any isStubName) =
      [(first, .file shapeBytes), (second, .file shapeBytes)])
    (order : Path.partsLe first second = true)
    (read : ∀ rest ∈ [first, second],
      shapeCorpus.loadEntry ⟨3, 3⟩ (shapePath rest, .file shapeBytes) =
        .ok (.inl (shapeFile (shapePath rest).text))) :
    shapeCorpus.load t ⟨3, 3⟩ = .ok (shapeSnapshot first second) := by
  have directory : shapeCorpus.snapshotDirectory ⟨3, 3⟩ = shapePath [] := by decide
  have entries : shapeCorpus.stubEntries t ⟨3, 3⟩ =
      [(shapePath first, .file shapeBytes), (shapePath second, .file shapeBytes)] := by
    rw [stubEntries, directory, files, List.mergeSort_of_pairwise (by simpa using order)]
    rfl
  rw [load, entries, List.mapM_cons, read first (by simp), List.mapM_cons, read second (by simp),
    directory]
  rfl

def siblingTree : FileTree :=
  (({} : FileTree).writeFile ["stubs", "rubystubs33", "circle.rb"] shapeBytes).writeFile
    ["stubs", "rubystubs33", "shape.rb"] shapeBytes

def siblingSnapshot : Snapshot := shapeSnapshot ["circle.rb"] ["shape.rb"]

theorem siblings_name_owner : shapeCorpus.load siblingTree ⟨3, 3⟩ = .ok siblingSnapshot ∧
    ∃ n, siblingSnapshot.table.get? "Shape" = some n ∧
      ∀ x ∈ Lint.Rule.duplicateNamespace.check siblingSnapshot, x.owner = some "Shape" →
        x.message = s!"Shape is already declared in {siblingSnapshot.relativePath n.path}" ∧
          x.path ≠ siblingSnapshot.relativePath n.path := by
  have proper : siblingTree.Proper :=
    (FileTree.proper_empty.writeFile (by decide) (by decide) _).writeFile
      (by decide) (by decide) _
  have loaded : shapeCorpus.load siblingTree ⟨3, 3⟩ = .ok siblingSnapshot :=
    load_shapes (by decide) (by decide) (by decide)
  have declared : siblingSnapshot.Declares (shapePath ["circle.rb"]).text "Shape" :=
    ⟨_, List.mem_cons_self, rfl, _, List.mem_cons_self, rfl, rfl⟩
  obtain ⟨n, found, -, -, named, siblings⟩ := duplicates_name_owner_iff proper
    (Path.normal_ofString "stubs") loaded (by decide) declared
  refine ⟨loaded, n, found, named.mpr (siblings ⟨shapePath [], ?_⟩)⟩
  rintro path ⟨f, hf, rfl, -⟩
  rcases List.mem_cons.mp hf with rfl | hf
  · exact ⟨"circle.rb", by decide⟩
  · obtain rfl := List.mem_singleton.mp hf
    exact ⟨"shape.rb", by decide⟩

def nestedTree : FileTree :=
  (({} : FileTree).writeFile ["stubs", "rubystubs33", "a", "x.rb"] shapeBytes).writeFile
    ["stubs", "rubystubs33", "a.rb"] shapeBytes

/-- The table names the file in the directory, and the rule reports that file. -/
theorem nested_file_reported_not_owner :
    shapeCorpus.load nestedTree ⟨3, 3⟩ = .ok (shapeSnapshot ["a", "x.rb"] ["a.rb"]) ∧
      ((shapeSnapshot ["a", "x.rb"] ["a.rb"]).table.get? "Shape").map (·.path) =
        some "stubs/rubystubs33/a/x.rb" ∧
      Lint.Rule.duplicateNamespace.check (shapeSnapshot ["a", "x.rb"] ["a.rb"]) =
        [{ rule := .duplicateNamespace, path := "a/x.rb", line := 1, owner := some "Shape",
           message := "Shape is already declared in a.rb" }] := by
  have order : sortOn (·.path) (shapeSnapshot ["a", "x.rb"] ["a.rb"]).files =
      [shapeFile "stubs/rubystubs33/a.rb", shapeFile "stubs/rubystubs33/a/x.rb"] := by
    have nested : (shapePath ["a", "x.rb"]).text = "stubs/rubystubs33/a/x.rb" := by decide
    have beside : (shapePath ["a.rb"]).text = "stubs/rubystubs33/a.rb" := by decide
    have order : ¬ "stubs/rubystubs33/a/x.rb" ≤ "stubs/rubystubs33/a.rb" := by decide
    simp [sortOn, shapeSnapshot, Snapshot.ofFiles, List.mergeSort, shapeFile, nested, beside, order]
  refine ⟨load_shapes (by decide) (by decide) (by decide), by decide, ?_⟩
  change Lint.checkNamespaces _ = _
  rw [Lint.checkNamespaces, Lint.topLevelSites, order]
  decide

end Corpus

end RubyIndex
