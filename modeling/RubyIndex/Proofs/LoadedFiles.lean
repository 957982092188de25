import Mathlib.Data.List.Forall2
import RubyIndex.Corpus.Load
import RubyIndex.Proofs.DirectoryNames
import RubyIndex.Proofs.OpenedNamespaces
import RubyIndex.Proofs.ReadNamespaces
import RubyIndex.Proofs.TreeEntries

/-! The files of a snapshot. Those that can be read are kept in the order of their paths, compared
component by component, and every namespace in them names its file by the text of the path. -/
namespace RubyIndex

namespace Path

variable {p : Path} {a b : List String} {x y : String}

theorem partsLe_refl (a : List String) : partsLe a a = true := by
  induction a with
  | nil => rfl
  | cons first rest ih => simp [partsLe, ih]

theorem partsLe_trans {d : List String} (hab : partsLe a b = true) (hbd : partsLe b d = true) :
    partsLe a d = true := by
  induction a generalizing b d with
  | nil => rfl
  | cons x as ih =>
    cases b with
    | nil => cases hab
    | cons y bs =>
      cases d with
      | nil => cases hbd
      | cons z ds =>
        simp only [partsLe, Bool.or_eq_true, Bool.and_eq_true, decide_eq_true_eq,
          beq_iff_eq] at hab hbd ⊢
        rcases hab with hxy | ⟨rfl, hab⟩
        · rcases hbd with hyz | ⟨rfl, -⟩
          · exact .inl (String.lt_trans hxy hyz)
          · exact .inl hxy
        · rcases hbd with hyz | ⟨rfl, hbd⟩
          · exact .inl hyz
          · exact .inr ⟨rfl, ih hab hbd⟩

theorem partsLe_total (a b : List String) : (partsLe a b || partsLe b a) = true := by
  induction a generalizing b with
  | nil => rfl
  | cons x as ih =>
    cases b with
    | nil => rfl
    | cons y bs =>
      have rest := ih bs
      simp only [partsLe, Bool.or_eq_true, Bool.and_eq_true, decide_eq_true_eq,
        beq_iff_eq] at rest ⊢
      rcases Std.lt_trichotomy x y with less | rfl | more
      · exact .inl (.inl less)
      · exact rest.imp (fun le => .inr ⟨rfl, le⟩) (fun le => .inr ⟨rfl, le⟩)
      · exact .inr (.inl more)

theorem partsLe_antisymm (hab : partsLe a b = true) (hba : partsLe b a = true) : a = b := by
  induction a generalizing b with
  | nil =>
    cases b with
    | nil => rfl
    | cons y bs => cases hba
  | cons x as ih =>
    cases b with
    | nil => cases hab
    | cons y bs =>
      simp only [partsLe, Bool.or_eq_true, Bool.and_eq_true, decide_eq_true_eq,
        beq_iff_eq] at hab hba
      rcases hab with less | ⟨rfl, hab⟩
      · rcases hba with more | ⟨rfl, -⟩
        · exact absurd (String.lt_trans less more) (String.lt_irrefl x)
        · exact absurd less (String.lt_irrefl y)
      · rcases hba with more | ⟨-, hba⟩
        · exact absurd more (String.lt_irrefl x)
        · rw [ih hab hba]

theorem partsLe_append (start : List String) :
    partsLe (start ++ a) (start ++ b) = partsLe a b := by
  induction start with
  | nil => rfl
  | cons first rest ih =>
    simp only [List.cons_append, partsLe, String.lt_irrefl, decide_false, beq_self_eq_true,
      Bool.true_and, Bool.false_or, ih]

theorem partsLe_singleton : partsLe [x] [y] = true ↔ x ≤ y := by
  simp [partsLe, Std.le_iff_lt_or_eq]

theorem append_injective (p : Path) : Function.Injective p.append := by
  intro a b same
  simpa [append] using same

theorem joined_concat (parts : List String) (name : String) :
    joined (parts ++ [name]) =
      (if parts = [] then [] else joined parts ++ ['/']) ++ name.toList := by
  induction parts with
  | nil => simp [joined]
  | cons first rest ih =>
    cases rest with
    | nil => simp [joined]
    | cons second more =>
      rw [joined] at ih
      simp only [joined, List.cons_append, List.map_cons, List.intercalate_cons_cons] at ih ⊢
      rw [ih]
      simp

theorem append_lt_append {start : String} (h : x < y) : start ++ x < start ++ y := by
  have longer := @List.append_left_lt Char _ start.toList x.toList y.toList h
  rw [← String.toList_append, ← String.toList_append] at longer
  exact longer

theorem exists_text_append_singleton (p : Path) :
    ∃ start : String, ∀ name, (p.append [name]).text = start ++ name := by
  refine ⟨String.ofList ((rootText p.root).toList ++
    if p.parts = [] then [] else joined p.parts ++ ['/']), fun name => ?_⟩
  rw [← String.toList_inj, toList_text]
  simp [append, joined_concat]

/-- In one directory paths are ordered as the names of the entries, and so are their texts. -/
theorem text_append_le (h : partsLe (p.append [x]).parts (p.append [y]).parts = true) :
    (p.append [x]).text ≤ (p.append [y]).text := by
  obtain ⟨start, text⟩ := exists_text_append_singleton p
  rw [text, text]
  rw [append, append, partsLe_append, partsLe_singleton, Std.le_iff_lt_or_eq] at h
  rcases h with less | rfl
  · exact Std.le_iff_lt_or_eq.mpr (.inl (append_lt_append less))
  · exact String.le_refl _

end Path

theorem Version.isPart_directoryName (v : Version) : Path.IsPart v.directoryName := by
  have start : v.directoryName.toList.head? = some 'r' := by
    rw [toList_directoryName]
    rfl
  constructor
  · intro empty
    rw [empty] at start
    cases start
  · intro dot
    rw [dot] at start
    cases start
  · intro slash
    rw [toList_directoryName] at slash
    rcases List.mem_append.mp slash with slash | slash
    · exact absurd slash (by decide)
    · rcases List.mem_append.mp slash with slash | slash
      · exact absurd (Text.isDigit_of_mem_toDigits slash) (by decide)
      · exact absurd (Text.isDigit_of_mem_toDigits slash) (by decide)

theorem StubFile.Parsed.path {f : StubFile} (h : f.Parsed) :
    ∀ n ∈ f.namespaces, n.path = f.path := by
  obtain ⟨text, path, parsed⟩ := h
  obtain ⟨place, places⟩ := StubFile.path_of_parse parsed
  intro n hn
  rw [places n hn, place]

structure Snapshot.Arranged (s : Snapshot) : Prop where
  table : s.table = SymbolTable.ofFiles s.files
  parsed : ∀ f ∈ s.files, f.Parsed
  placed : ∀ f ∈ s.files, ∃ rest, (s.directory.append rest).Normal ∧
    f.path = (s.directory.append rest).text
  ordered : s.files.Pairwise fun f g =>
    Path.partsLe (Path.ofString f.path).parts (Path.ofString g.path).parts = true

namespace Corpus

variable {c : Corpus} {t : FileTree} {v : Version} {entry : Path × Node} {f : StubFile}

theorem forall₂_of_mapM {α β ε : Type} {act : α → Except ε β} {inputs : List α}
    {outputs : List β} (h : inputs.mapM act = .ok outputs) :
    List.Forall₂ (fun a b => act a = .ok b) inputs outputs := by
  induction inputs generalizing outputs with
  | nil =>
    cases h
    exact .nil
  | cons a rest ih =>
    rw [List.mapM_cons] at h
    cases first : act a with
    | error e =>
      rw [first] at h
      cases h
    | ok b =>
      cases others : rest.mapM act with
      | error e =>
        rw [first, others] at h
        cases h
      | ok more =>
        rw [first, others] at h
        cases h
        exact .cons first (ih others)

theorem parse_of_readStubs {path : String} {bytes : List UInt8}
    (h : readStubs path bytes = .ok f) : ∃ source, StubFile.parse source path = .ok f := by
  unfold readStubs at h
  cases decoded : Text.Utf8.decode bytes with
  | error fault =>
    rw [decoded] at h
    cases h
  | ok text =>
    simp only [decoded] at h
    cases parsed : StubFile.parse (String.ofList text) path with
    | error e =>
      rw [parsed] at h
      cases h
    | ok g =>
      rw [parsed] at h
      cases h
      exact ⟨_, parsed⟩

theorem parsed_of_loadEntry (h : c.loadEntry v entry = .ok (.inl f)) :
    f.path = entry.1.text ∧ f.Parsed := by
  obtain ⟨path, _ | bytes⟩ := entry
  · cases h
  · rw [loadEntry] at h
    cases read : readStubs path.text bytes with
    | error fault =>
      rw [read] at h
      cases strict : c.strict <;> simp [strict] at h
    | ok g =>
      rw [read] at h
      cases h
      obtain ⟨source, parsed⟩ := parse_of_readStubs read
      exact ⟨(StubFile.path_of_parse parsed).1, source, _, parsed⟩

theorem sublist_of_loaded {entries : List (Path × Node)} {results : List (StubFile ⊕ FileError)}
    (h : List.Forall₂ (fun e r => c.loadEntry v e = .ok r) entries results) :
    ((results.filterMap Sum.getLeft?).map (·.path)).Sublist (entries.map (·.1.text)) ∧
      ∀ f ∈ results.filterMap Sum.getLeft?, f.Parsed := by
  induction h with
  | nil => simp
  | @cons e r entries results loaded _ ih =>
    obtain ⟨paths, parsed⟩ := ih
    cases r with
    | inl f =>
      obtain ⟨path, read⟩ := parsed_of_loadEntry loaded
      refine ⟨?_, ?_⟩
      · simpa [path] using paths
      · simpa using ⟨read, by simpa using parsed⟩
    | inr error => exact ⟨paths.cons _, parsed⟩

theorem mem_stubEntries_iff {e : Path × Node} : e ∈ c.stubEntries t v ↔
    ∃ rest, (rest, e.2) ∈ t.below (c.snapshotDirectory v) ∧
      rest.getLast?.any isStubName = true ∧ e.1 = (c.snapshotDirectory v).append rest := by
  unfold stubEntries
  rw [List.mem_map]
  constructor
  · rintro ⟨⟨rest, node⟩, listed, rfl⟩
    obtain ⟨below, named⟩ := List.mem_filter.mp (List.mem_mergeSort.mp listed)
    exact ⟨rest, below, named, rfl⟩
  · rintro ⟨rest, below, named, path⟩
    refine ⟨(rest, e.2), List.mem_mergeSort.mpr (List.mem_filter.mpr ⟨below, named⟩), ?_⟩
    rw [← path]

theorem isStubName_iff {name : String} : isStubName name = true ↔ ∃ stem, name = stem ++ ".rb" := by
  unfold isStubName
  rw [List.isSuffixOf_iff_suffix]
  constructor
  · rintro ⟨stem, eq⟩
    refine ⟨String.ofList stem, String.toList_inj.mp ?_⟩
    simpa using eq.symm
  · rintro ⟨stem, rfl⟩
    exact ⟨stem.toList, String.toList_append.symm⟩

/-- What is taken for stubs is what stands below the directory of the version, at any depth, under a
name that ends in `.rb`. -/
theorem mem_stubEntries_iff_suffix {e : Path × Node} : e ∈ c.stubEntries t v ↔
    ∃ parents stem, (parents ++ [stem ++ ".rb"], e.2) ∈ t.below (c.snapshotDirectory v) ∧
      e.1 = (c.snapshotDirectory v).append (parents ++ [stem ++ ".rb"]) := by
  rw [mem_stubEntries_iff]
  constructor
  · rintro ⟨rest, listed, named, path⟩
    obtain ⟨name, last, stub⟩ := (Option.any_eq_true _ _).mp named
    obtain ⟨stem, rfl⟩ := isStubName_iff.mp stub
    obtain ⟨parents, rfl⟩ := List.getLast?_eq_some_iff.mp last
    exact ⟨parents, stem, listed, path⟩
  · rintro ⟨parents, stem, listed, path⟩
    refine ⟨_, listed, ?_, path⟩
    rw [List.getLast?_concat, Option.any_some]
    exact isStubName_iff.mpr ⟨stem, rfl⟩

theorem stubEntries_ordered (c : Corpus) (t : FileTree) (v : Version) :
    (c.stubEntries t v).Pairwise fun a b => Path.partsLe a.1.parts b.1.parts = true := by
  unfold stubEntries
  have trans (a b d : List String × Node) (hab : Path.partsLe a.1 b.1 = true)
      (hbd : Path.partsLe b.1 d.1 = true) : Path.partsLe a.1 d.1 = true :=
    Path.partsLe_trans hab hbd
  have total (a b : List String × Node) := Path.partsLe_total a.1 b.1
  refine List.pairwise_map.mpr ((List.pairwise_mergeSort trans total _).imp ?_)
  intro a b h
  exact (Path.partsLe_append _).trans h

theorem normal_of_mem_below {rest : List String} {node : Node} (proper : t.Proper)
    (normal : c.directory.Normal) (listed : (rest, node) ∈ t.below (c.snapshotDirectory v)) :
    ((c.snapshotDirectory v).append rest).Normal := by
  have directory : (c.snapshotDirectory v).Normal :=
    normal.append (by simpa using v.isPart_directoryName)
  refine directory.append ?_
  intro part hpart
  exact (proper.isName_of_mem_below listed part hpart).toIsPart

theorem stubEntries_normal (proper : t.Proper) (normal : c.directory.Normal)
    (h : entry ∈ c.stubEntries t v) : ∃ rest,
      ((c.snapshotDirectory v).append rest).Normal ∧
        entry.1 = (c.snapshotDirectory v).append rest := by
  obtain ⟨rest, listed, -, path⟩ := mem_stubEntries_iff.mp h
  exact ⟨rest, normal_of_mem_below proper normal listed, path⟩

theorem normal_of_mem_stubEntries (proper : t.Proper) (normal : c.directory.Normal)
    (h : entry ∈ c.stubEntries t v) : entry.1.Normal := by
  obtain ⟨rest, placed, path⟩ := stubEntries_normal proper normal h
  rw [path]
  exact placed

theorem entryPaths_nodup (proper : t.Proper) : ((c.stubEntries t v).map (·.1)).Nodup := by
  unfold stubEntries
  rw [List.map_map]
  refine List.pairwise_map.mpr ?_
  have apart := (proper.distinct_below (c.snapshotDirectory v)).filter
    fun e => e.1.getLast?.any isStubName
  have sorted := ((List.mergeSort_perm _ fun a b => Path.partsLe a.1 b.1).pairwise_iff
    fun ne => Ne.symm ne).mpr apart
  refine sorted.imp ?_
  intro a b ne same
  exact ne (Path.append_injective _ same)

theorem entryTexts_nodup (proper : t.Proper) (normal : c.directory.Normal) :
    ((c.stubEntries t v).map (·.1.text)).Nodup := by
  refine List.pairwise_map.mpr ((List.pairwise_map.mp (entryPaths_nodup proper)).imp_of_mem ?_)
  intro a b ha hb ne same
  exact ne (Path.text_injective (normal_of_mem_stubEntries proper normal ha)
    (normal_of_mem_stubEntries proper normal hb) same)

theorem entryTexts_ordered (proper : t.Proper) (normal : c.directory.Normal) :
    ((c.stubEntries t v).map (·.1.text)).Pairwise fun a b =>
      Path.partsLe (Path.ofString a).parts (Path.ofString b).parts = true := by
  refine List.pairwise_map.mpr ((stubEntries_ordered c t v).imp_of_mem ?_)
  intro a b ha hb le
  rw [Path.ofString_text (normal_of_mem_stubEntries proper normal ha),
    Path.ofString_text (normal_of_mem_stubEntries proper normal hb)]
  exact le

/-- The entries are known from what they are. Their order is that of the paths. -/
theorem stubEntries_eq_filter {t' : FileTree} (proper : t.Proper) (proper' : t'.Proper)
    {keep : Path × Node → Bool}
    (same : ∀ e, e ∈ c.stubEntries t' v ↔ e ∈ (c.stubEntries t v).filter keep) :
    c.stubEntries t' v = (c.stubEntries t v).filter keep := by
  have perm : (c.stubEntries t' v).Perm ((c.stubEntries t v).filter keep) :=
    (List.perm_ext_iff_of_nodup (entryPaths_nodup proper').of_map
      ((entryPaths_nodup proper).of_map.filter _)).mpr same
  refine perm.eq_of_pairwise ?_ (stubEntries_ordered c t' v) ((stubEntries_ordered c t v).filter _)
  intro a b ha hb hab hba
  have ha := List.mem_of_mem_filter (perm.mem_iff.mp ha)
  have hb := List.mem_of_mem_filter hb
  obtain ⟨_, -, -, path_a⟩ := mem_stubEntries_iff.mp ha
  obtain ⟨_, -, -, path_b⟩ := mem_stubEntries_iff.mp hb
  have parts := Path.partsLe_antisymm hab hba
  refine List.inj_on_of_nodup_map (entryPaths_nodup proper) ha hb ?_
  rw [path_a, path_b] at parts ⊢
  exact congrArg (Path.mk _) parts

/-- A snapshot holds what each of the entries has been loaded as. -/
theorem forall₂_of_load {s : Snapshot} (loaded : c.load t v = .ok s) : ∃ results,
    List.Forall₂ (fun e r => c.loadEntry v e = .ok r) (c.stubEntries t v) results ∧
      s = .ofFiles v (c.snapshotDirectory v) (results.filterMap Sum.getLeft?)
        (results.filterMap Sum.getRight?) := by
  unfold load at loaded
  cases outcomes : (c.stubEntries t v).mapM (c.loadEntry v) with
  | error e =>
    rw [outcomes] at loaded
    cases loaded
  | ok results =>
    rw [outcomes] at loaded
    cases loaded
    exact ⟨results, forall₂_of_mapM outcomes, rfl⟩

theorem arranged_load {s : Snapshot} (proper : t.Proper) (normal : c.directory.Normal)
    (loaded : c.load t v = .ok s) : s.Arranged := by
  obtain ⟨results, each, rfl⟩ := forall₂_of_load loaded
  obtain ⟨paths, parsed⟩ := sublist_of_loaded each
  refine ⟨rfl, parsed, ?_, ?_⟩
  · intro f hf
    obtain ⟨e, he, path⟩ := List.mem_map.mp (paths.subset (List.mem_map_of_mem hf))
    obtain ⟨rest, normal, eq⟩ := stubEntries_normal proper normal he
    exact ⟨rest, normal, by rw [← path, eq]; rfl⟩
  · exact List.pairwise_map.mp ((entryTexts_ordered proper normal).sublist paths)

end Corpus

end RubyIndex
