import RubyIndex.Proofs.AvailableVersions
import RubyIndex.Proofs.LoadedFiles
import RubyIndex.Proofs.Utf8Decoding

/-! Files that cannot be read, beside those that can. Each file is read by itself: what is no text
or no stubs is listed as an error and leaves nothing behind, and if errors are not put up with
the first of them is what loading ends with. The stubs are below the working directory here: with an
absolute directory there are none in any tree. -/
namespace RubyIndex

def Faulty (path : String) (bytes : List UInt8) : Prop :=
  ¬ bytes.toByteArray.IsValidUTF8 ∨ ∃ text error,
    text.toByteArray = bytes.toByteArray ∧ StubFile.parse text path = .error error

def ReadAs (path : String) (bytes : List UInt8) (f : StubFile) : Prop :=
  ∃ text, text.toByteArray = bytes.toByteArray ∧ StubFile.parse text path = .ok f

/-- Every entry is listed once, with what was read of it or among the errors, and the table holds
what was read. -/
structure Snapshot.Separates (s : Snapshot) (entries : List (Path × Node)) : Prop where
  once : (s.files.map (·.path) ++ s.errors.map (·.path)).Perm (entries.map (·.1.text))
  distinct : (entries.map (·.1.text)).Nodup
  filesOrdered : (s.files.map (·.path)).Pairwise fun a b =>
    Path.partsLe (Path.ofString a).parts (Path.ofString b).parts = true
  errorsOrdered : (s.errors.map (·.path)).Pairwise fun a b =>
    Path.partsLe (Path.ofString a).parts (Path.ofString b).parts = true
  faulty : ∀ path bytes, (path, .file bytes) ∈ entries →
    (path.text ∈ s.errors.map (·.path) ↔ Faulty path.text bytes)
  read : ∀ f, f ∈ s.files ↔
    ∃ path bytes, (path, .file bytes) ∈ entries ∧ ReadAs path.text bytes f
  table : s.table = SymbolTable.ofFiles s.files

/-- In the directory the other tree has the same entries but those at the paths. -/
def FileTree.Deletes (t : FileTree) (directory : Path) (paths : List String) (t' : FileTree) :
    Prop :=
  ∀ e, e ∈ t'.below directory ↔
    e ∈ t.below directory ∧ (directory.append e.1).text ∉ paths

namespace Corpus

variable {c : Corpus} {t : FileTree} {v : Version} {path : String} {bytes : List UInt8}
  {f : StubFile} {inputs : List (Path × List UInt8)}

theorem readStubs_of_encoded {text : String} (encoded : text.toByteArray = bytes.toByteArray) :
    readStubs path bytes = (StubFile.parse text path).mapError .notStubs := by
  have decoded : Text.Utf8.decode bytes = .ok text.toList := by
    rw [Text.Utf8.decode_eq_ok_iff, String.ofList_toList, encoded]
  simp only [readStubs, decoded, String.ofList_toList]
  cases StubFile.parse text path <;> rfl

theorem readStubs_eq_ok_iff : readStubs path bytes = .ok f ↔ ReadAs path bytes f := by
  constructor
  · intro read
    cases decoded : Text.Utf8.decode bytes with
    | error fault =>
      rw [readStubs, decoded] at read
      cases read
    | ok text =>
      have encoded := Text.Utf8.decode_eq_ok_iff.mp decoded
      refine ⟨_, encoded, ?_⟩
      rw [readStubs_of_encoded encoded] at read
      cases parsed : StubFile.parse (String.ofList text) path with
      | error e =>
        rw [parsed] at read
        cases read
      | ok g =>
        rw [parsed] at read
        cases read
        rfl
  · rintro ⟨text, encoded, parsed⟩
    rw [readStubs_of_encoded encoded, parsed]
    rfl

theorem readStubs_eq_error_iff :
    (∃ fault, readStubs path bytes = .error fault) ↔ Faulty path bytes := by
  unfold Faulty
  rw [← Text.Utf8.decode_eq_error_iff]
  constructor
  · rintro ⟨fault, refused⟩
    cases decoded : Text.Utf8.decode bytes with
    | error fault => exact .inl ⟨fault, rfl⟩
    | ok text =>
      have encoded := Text.Utf8.decode_eq_ok_iff.mp decoded
      rw [readStubs_of_encoded encoded] at refused
      cases parsed : StubFile.parse (String.ofList text) path with
      | error e => exact .inr ⟨_, e, encoded, parsed⟩
      | ok g =>
        rw [parsed] at refused
        cases refused
  · rintro (⟨fault, refused⟩ | ⟨text, e, encoded, parsed⟩)
    · rw [readStubs, refused]
      exact ⟨_, rfl⟩
    · rw [readStubs_of_encoded encoded, parsed]
      exact ⟨_, rfl⟩

def outcome (e : Path × List UInt8) : StubFile ⊕ FileError :=
  match readStubs e.1.text e.2 with
  | .ok f => .inl f
  | .error fault => .inr (reported e.1.text e.2 fault)

theorem outcome_of_ok {e : Path × List UInt8} (read : readStubs e.1.text e.2 = .ok f) :
    outcome e = .inl f := by
  rw [outcome, read]

theorem outcome_of_error {e : Path × List UInt8} {fault : ContentFault}
    (read : readStubs e.1.text e.2 = .error fault) :
    outcome e = .inr (reported e.1.text e.2 fault) := by
  rw [outcome, read]

theorem path_reported (path : String) (bytes : List UInt8) (fault : ContentFault) :
    (reported path bytes fault).path = path := by
  cases fault <;> rfl

theorem path_of_readStubs (read : readStubs path bytes = .ok f) : f.path = path := by
  obtain ⟨text, -, parsed⟩ := readStubs_eq_ok_iff.mp read
  exact (StubFile.path_of_parse parsed).1

def filesOf (inputs : List (Path × List UInt8)) : List StubFile :=
  inputs.filterMap fun e => (outcome e).getLeft?

def errorsOf (inputs : List (Path × List UInt8)) : List FileError :=
  inputs.filterMap fun e => (outcome e).getRight?

theorem map_path_filesOf (inputs : List (Path × List UInt8)) :
    (filesOf inputs).map (·.path) =
      (inputs.filter fun e => (outcome e).isLeft).map (·.1.text) := by
  unfold filesOf
  induction inputs with
  | nil => rfl
  | cons e rest ih =>
    cases read : readStubs e.1.text e.2 with
    | ok f => simpa [List.filterMap_cons, outcome_of_ok read, path_of_readStubs read] using ih
    | error fault => simpa [List.filterMap_cons, outcome_of_error read] using ih

theorem map_path_errorsOf (inputs : List (Path × List UInt8)) :
    (errorsOf inputs).map (·.path) =
      (inputs.filter fun e => !(outcome e).isLeft).map (·.1.text) := by
  unfold errorsOf
  induction inputs with
  | nil => rfl
  | cons e rest ih =>
    cases read : readStubs e.1.text e.2 with
    | ok f => simpa [List.filterMap_cons, outcome_of_ok read] using ih
    | error fault => simpa [List.filterMap_cons, outcome_of_error read, path_reported] using ih

theorem isLeft_outcome_iff {e : Path × List UInt8} :
    (outcome e).isLeft = true ↔ ¬ Faulty e.1.text e.2 := by
  rw [← readStubs_eq_error_iff]
  cases read : readStubs e.1.text e.2 with
  | ok f => simp [outcome_of_ok read]
  | error fault => simp [outcome_of_error read]

theorem mem_filesOf_iff : f ∈ filesOf inputs ↔ ∃ e ∈ inputs, ReadAs e.1.text e.2 f := by
  unfold filesOf
  rw [List.mem_filterMap]
  refine exists_congr fun e => and_congr_right fun _ => ?_
  rw [← readStubs_eq_ok_iff]
  cases read : readStubs e.1.text e.2 with
  | ok g => simp [outcome_of_ok read]
  | error fault => simp [outcome_of_error read]

def fileEntry (e : Path × List UInt8) : Path × Node := (e.1, .file e.2)

theorem exists_map_fileEntry {entries : List (Path × Node)}
    (files : ∀ e ∈ entries, ∃ bytes, e.2 = .file bytes) :
    ∃ inputs : List (Path × List UInt8), entries = inputs.map fileEntry := by
  induction entries with
  | nil => exact ⟨[], rfl⟩
  | cons e rest ih =>
    obtain ⟨bytes, file⟩ := files e List.mem_cons_self
    obtain ⟨inputs, rfl⟩ := ih fun e he => files e (List.mem_cons_of_mem _ he)
    refine ⟨(e.1, bytes) :: inputs, ?_⟩
    rw [List.map_cons, fileEntry, ← file]

theorem mapM_map_eq_ok {α β γ ε : Type} {act : β → Except ε γ} {f : α → β} {g : α → γ} {l : List α}
    (h : ∀ a ∈ l, act (f a) = .ok (g a)) : (l.map f).mapM act = .ok (l.map g) := by
  induction l with
  | nil => rfl
  | cons a rest ih =>
    rw [List.map_cons, List.mapM_cons, h a List.mem_cons_self,
      ih fun a ha => h a (List.mem_cons_of_mem _ ha)]
    rfl

theorem exists_of_mapM_eq_error {α β ε : Type} {act : α → Except ε β} {e : ε} {l : List α}
    (h : l.mapM act = .error e) : ∃ a ∈ l, act a = .error e := by
  induction l with
  | nil => cases h
  | cons a rest ih =>
    rw [List.mapM_cons] at h
    cases first : act a with
    | error e' =>
      rw [first] at h
      cases h
      exact ⟨a, List.mem_cons_self, first⟩
    | ok b =>
      cases others : rest.mapM act with
      | error e' =>
        rw [first, others] at h
        cases h
        obtain ⟨a, ha, failed⟩ := ih others
        exact ⟨a, List.mem_cons_of_mem _ ha, failed⟩
      | ok more =>
        rw [first, others] at h
        cases h

theorem exists_ok_of_forall₂ {α β ε : Type} {act : α → Except ε β} {l : List α} {results : List β}
    (h : List.Forall₂ (fun a b => act a = .ok b) l results) {a : α} (ha : a ∈ l) :
    ∃ b, act a = .ok b := by
  induction h with
  | nil => cases ha
  | cons first _ ih =>
    rcases List.mem_cons.mp ha with rfl | ha
    · exact ⟨_, first⟩
    · exact ih ha

theorem loadEntry_of_load {s : Snapshot} {entry : Path × Node} (loaded : c.load t v = .ok s)
    (listed : entry ∈ c.stubEntries t v) : ∃ r, c.loadEntry v entry = .ok r := by
  obtain ⟨results, each, -⟩ := forall₂_of_load loaded
  exact exists_ok_of_forall₂ each listed

/-- Loading fails on one of the entries. -/
theorem loadEntry_of_load_error {error : CorpusError} (failed : c.load t v = .error error) :
    ∃ entry ∈ c.stubEntries t v, c.loadEntry v entry = .error error := by
  unfold load at failed
  cases outcomes : (c.stubEntries t v).mapM (c.loadEntry v) with
  | ok results =>
    rw [outcomes] at failed
    cases failed
  | error e =>
    rw [outcomes] at failed
    cases failed
    exact exists_of_mapM_eq_error outcomes

def withStrict (c : Corpus) (strict : Bool) : Corpus := { c with strict := strict }

variable {strict : Bool}

theorem loadEntry_lenient (e : Path × List UInt8) :
    (c.withStrict false).loadEntry v (fileEntry e) = .ok (outcome e) := by
  rw [fileEntry, loadEntry, outcome]
  cases readStubs e.1.text e.2 <;> rfl

theorem loadEntry_of_not_faulty {e : Path × List UInt8} (good : ¬ Faulty e.1.text e.2) :
    (c.withStrict strict).loadEntry v (fileEntry e) = .ok (outcome e) := by
  rw [← readStubs_eq_error_iff] at good
  rw [fileEntry, loadEntry, outcome]
  cases read : readStubs e.1.text e.2 with
  | ok f => rfl
  | error fault => exact absurd ⟨fault, read⟩ good

theorem loadEntry_strict_error {e : Path × List UInt8} {error : CorpusError}
    (failed : (c.withStrict true).loadEntry v (fileEntry e) = .error error) :
    ∃ path fault, error = .fileFault v path fault := by
  rw [fileEntry, loadEntry] at failed
  cases read : readStubs e.1.text e.2 with
  | ok f =>
    rw [read] at failed
    cases failed
  | error fault =>
    rw [read] at failed
    cases failed
    exact ⟨_, _, rfl⟩

theorem loadEntry_strict_of_faulty {e : Path × List UInt8} (faulty : Faulty e.1.text e.2)
    (r : StubFile ⊕ FileError) : (c.withStrict true).loadEntry v (fileEntry e) ≠ .ok r := by
  obtain ⟨fault, read⟩ := readStubs_eq_error_iff.mpr faulty
  rw [fileEntry, loadEntry, read]
  intro loaded
  cases loaded

/-- What is loaded of files when each of them can be read or its faults are put up with. -/
def separated (c : Corpus) (v : Version) (inputs : List (Path × List UInt8)) : Snapshot :=
  .ofFiles v (c.snapshotDirectory v) (filesOf inputs) (errorsOf inputs)

theorem load_eq_separated (entries : c.stubEntries t v = inputs.map fileEntry)
    (loaded : ∀ e ∈ inputs, (c.withStrict strict).loadEntry v (fileEntry e) = .ok (outcome e)) :
    (c.withStrict strict).load t v = .ok (c.separated v inputs) := by
  have same : (c.withStrict strict).stubEntries t v = inputs.map fileEntry := entries
  rw [load, same, mapM_map_eq_ok loaded, separated, filesOf, errorsOf]
  change Except.ok (Snapshot.ofFiles v _ ((inputs.map outcome).filterMap Sum.getLeft?)
    ((inputs.map outcome).filterMap Sum.getRight?)) = _
  rw [List.filterMap_map, List.filterMap_map]
  rfl

theorem errorsOf_eq_nil_iff : errorsOf inputs = [] ↔ ∀ e ∈ inputs, ¬ Faulty e.1.text e.2 := by
  rw [← List.map_eq_nil_iff (f := (·.path)), map_path_errorsOf, List.map_eq_nil_iff,
    List.filter_eq_nil_iff]
  simp only [Bool.not_eq_true', ← Bool.not_eq_true, isLeft_outcome_iff, not_not]

theorem load_strict_error_iff (entries : c.stubEntries t v = inputs.map fileEntry) :
    (∃ path fault, (c.withStrict true).load t v = .error (.fileFault v path fault)) ↔
      errorsOf inputs ≠ [] := by
  rw [Ne, errorsOf_eq_nil_iff]
  constructor
  · rintro ⟨path, fault, failed⟩ good
    rw [load_eq_separated entries fun e he => loadEntry_of_not_faulty (good e he)] at failed
    cases failed
  · intro bad
    have same : (c.withStrict true).stubEntries t v = inputs.map fileEntry := entries
    cases loading : (c.withStrict true).load t v with
    | error error =>
      obtain ⟨entry, listed, failed⟩ := loadEntry_of_load_error loading
      rw [same] at listed
      obtain ⟨e, -, rfl⟩ := List.mem_map.mp listed
      obtain ⟨path, fault, rfl⟩ := loadEntry_strict_error failed
      exact ⟨path, fault, rfl⟩
    | ok s =>
      refine absurd (fun e he faulty => ?_) bad
      obtain ⟨r, loaded⟩ := loadEntry_of_load loading (same ▸ List.mem_map_of_mem he)
      exact loadEntry_strict_of_faulty faulty r loaded

theorem filesOf_filter (inputs : List (Path × List UInt8)) :
    filesOf (inputs.filter fun e => (outcome e).isLeft) = filesOf inputs := by
  unfold filesOf
  rw [List.filterMap_filter]
  refine List.filterMap_congr fun e _ => ?_
  cases outcome e <;> rfl

theorem errorsOf_filter (inputs : List (Path × List UInt8)) :
    errorsOf (inputs.filter fun e => (outcome e).isLeft) = [] := by
  rw [errorsOf_eq_nil_iff]
  intro e he
  exact isLeft_outcome_iff.mp (List.mem_filter.mp he).2

theorem mem_errorPaths_iff (proper : t.Proper) (normal : c.directory.Normal)
    (entries : c.stubEntries t v = inputs.map fileEntry) {e : Path × List UInt8} (he : e ∈ inputs) :
    e.1.text ∈ (errorsOf inputs).map (·.path) ↔ Faulty e.1.text e.2 := by
  have distinct := entryTexts_nodup (c := c) (v := v) proper normal
  rw [entries, List.map_map] at distinct
  rw [map_path_errorsOf, List.mem_map]
  constructor
  · rintro ⟨e', found, same⟩
    obtain ⟨he', refused⟩ := List.mem_filter.mp found
    obtain rfl : e' = e := List.inj_on_of_nodup_map distinct he' he same
    by_contra good
    rw [isLeft_outcome_iff.mpr good] at refused
    cases refused
  · intro faulty
    refine ⟨e, List.mem_filter.mpr ⟨he, ?_⟩, rfl⟩
    have refused := mt isLeft_outcome_iff.mp (not_not.mpr faulty)
    simpa using refused

theorem separates_separated (proper : t.Proper) (normal : c.directory.Normal)
    (entries : c.stubEntries t v = inputs.map fileEntry) :
    (c.separated v inputs).Separates (c.stubEntries t v) := by
  have texts : (c.stubEntries t v).map (·.1.text) = inputs.map (·.1.text) := by
    rw [entries, List.map_map]
    rfl
  have ordered := entryTexts_ordered (v := v) proper normal
  rw [texts] at ordered
  constructor
  · rw [texts]
    change ((filesOf inputs).map _ ++ (errorsOf inputs).map _).Perm _
    rw [map_path_filesOf, map_path_errorsOf, ← List.map_append]
    exact (List.filter_append_perm _ inputs).map _
  · exact entryTexts_nodup proper normal
  · refine ordered.sublist ?_
    change ((filesOf inputs).map _).Sublist _
    rw [map_path_filesOf]
    exact List.filter_sublist.map _
  · refine ordered.sublist ?_
    change ((errorsOf inputs).map _).Sublist _
    rw [map_path_errorsOf]
    exact List.filter_sublist.map _
  · intro path bytes listed
    rw [entries] at listed
    obtain ⟨e, he, same⟩ := List.mem_map.mp listed
    cases same
    exact mem_errorPaths_iff proper normal entries he
  · intro f
    change f ∈ filesOf inputs ↔ _
    rw [mem_filesOf_iff, entries]
    constructor
    · rintro ⟨e, he, read⟩
      exact ⟨e.1, e.2, List.mem_map_of_mem he, read⟩
    · rintro ⟨path, bytes, listed, read⟩
      obtain ⟨e, he, same⟩ := List.mem_map.mp listed
      cases same
      exact ⟨e, he, read⟩
  · rfl

theorem exists_deletes (proper : t.Proper) (normal : c.directory.Normal)
    (entries : c.stubEntries t v = inputs.map fileEntry) :
    ∃ t' : FileTree, t'.Proper ∧
      t.Deletes (c.snapshotDirectory v) ((errorsOf inputs).map (·.path)) t' := by
  refine proper.exists_without _ fun e listed gone => ?_
  rw [map_path_errorsOf] at gone
  obtain ⟨input, failed, same⟩ := List.mem_map.mp gone
  have entry : fileEntry input ∈ c.stubEntries t v := by
    rw [entries]
    exact List.mem_map_of_mem (List.mem_filter.mp failed).1
  obtain ⟨rest, below, -, path⟩ := mem_stubEntries_iff.mp entry
  -- The path of an entry is no other entry's path, so that it is the file that is deleted.
  have parts : e.1 = rest := by
    refine Path.append_injective (c.snapshotDirectory v) (Path.text_injective ?_ ?_ ?_)
    · exact normal_of_mem_below proper normal listed
    · exact normal_of_mem_below proper normal below
    · rw [← path]
      exact same.symm
  have distinct := List.pairwise_map.mpr (proper.distinct_below (c.snapshotDirectory v))
  rw [List.inj_on_of_nodup_map distinct listed below parts]
  exact Node.noConfusion

/-- The directory without the files that are listed as errors holds the others. -/
theorem stubEntries_of_deletes {t' : FileTree} (proper : t.Proper) (proper' : t'.Proper)
    (normal : c.directory.Normal) (entries : c.stubEntries t v = inputs.map fileEntry)
    (deleted : t.Deletes (c.snapshotDirectory v) ((errorsOf inputs).map (·.path)) t') :
    c.stubEntries t' v = (inputs.filter fun e => (outcome e).isLeft).map fileEntry := by
  have same (e : Path × Node) : e ∈ c.stubEntries t' v ↔ e ∈ (c.stubEntries t v).filter
      fun e => decide (e.1.text ∉ (errorsOf inputs).map (·.path)) := by
    rw [List.mem_filter, decide_eq_true_eq, mem_stubEntries_iff, mem_stubEntries_iff]
    constructor
    · rintro ⟨rest, below, named, path⟩
      obtain ⟨below, kept⟩ := (deleted _).mp below
      exact ⟨⟨rest, below, named, path⟩, by rw [path]; exact kept⟩
    · rintro ⟨⟨rest, below, named, path⟩, kept⟩
      rw [path] at kept
      exact ⟨rest, (deleted _).mpr ⟨below, kept⟩, named, path⟩
  rw [stubEntries_eq_filter proper proper' same, entries, List.filter_map]
  congr 1
  refine List.filter_congr fun e he => ?_
  rw [Bool.eq_iff_iff, isLeft_outcome_iff, ← mem_errorPaths_iff proper normal entries he]
  exact decide_eq_true_iff

/-- Files whose names end in `.rb` are read one by one. Those that cannot be read are told apart by
their bytes alone, and without them the same would have been loaded. -/
theorem load_isolates_faults (proper : t.Proper) (normal : c.directory.Normal)
    (files : ∀ e ∈ c.stubEntries t v, ∃ bytes, e.2 = .file bytes) :
    (∀ e, e ∈ c.stubEntries t v ↔ ∃ parents stem,
      (parents ++ [stem ++ ".rb"], e.2) ∈ t.below (c.snapshotDirectory v) ∧
        e.1 = (c.snapshotDirectory v).append (parents ++ [stem ++ ".rb"])) ∧
    ∃ s, (c.withStrict false).load t v = .ok s ∧ s.Separates (c.stubEntries t v) ∧
      (∃ t' : FileTree, t'.Proper ∧
        t.Deletes (c.snapshotDirectory v) (s.errors.map (·.path)) t') ∧
      (∀ t' : FileTree, t'.Proper →
        t.Deletes (c.snapshotDirectory v) (s.errors.map (·.path)) t' →
        ∃ s', (c.withStrict false).load t' v = .ok s' ∧ s'.files = s.files ∧ s'.errors = [] ∧
          s'.table = s.table) ∧
      ((∃ path fault, (c.withStrict true).load t v = .error (.fileFault v path fault)) ↔
        s.errors ≠ []) ∧
      (s.errors = [] → (c.withStrict true).load t v = .ok s) := by
  obtain ⟨inputs, entries⟩ := exists_map_fileEntry files
  refine ⟨fun _ => mem_stubEntries_iff_suffix, c.separated v inputs,
    load_eq_separated entries fun e _ => loadEntry_lenient e,
    separates_separated proper normal entries, exists_deletes proper normal entries, ?_,
    load_strict_error_iff entries, ?_⟩
  · intro t' proper' deleted
    have others := stubEntries_of_deletes proper proper' normal entries deleted
    have files := filesOf_filter inputs
    refine ⟨c.separated v (inputs.filter fun e => (outcome e).isLeft),
      load_eq_separated others fun e _ => loadEntry_lenient e, files, errorsOf_filter inputs, ?_⟩
    exact congrArg SymbolTable.ofFiles files
  · intro none
    exact load_eq_separated entries fun e he =>
      loadEntry_of_not_faulty (errorsOf_eq_nil_iff.mp none e he)

def mixedTree : FileTree :=
  let stubs := ["stubs", "rubystubs33"]
  let write (t : FileTree) (file : List String × List UInt8) := t.writeFile (stubs ++ file.1) file.2
  [(["area.rb"], [0xFF]),
    (["circle.rb"], "class Circle\nend\n".toList.flatMap String.utf8EncodeChar),
    (["shape.rb"], "end\n".toList.flatMap String.utf8EncodeChar),
    (["curves", "quadratic_bezier.rb"], []), (["notes_on_shapes.txt"], [0xFF])].foldl write {}

def clearedTree : FileTree :=
  (mixedTree.remove ["stubs", "rubystubs33", "area.rb"]).remove ["stubs", "rubystubs33", "shape.rb"]

theorem mixedTree_proper : mixedTree.Proper where
  distinct := by decide
  named := by decide

theorem mixed_files_isolated : ∃ s s',
    (stubsCorpus.withStrict false).load mixedTree ⟨3, 3⟩ = .ok s ∧
      (stubsCorpus.withStrict false).load clearedTree ⟨3, 3⟩ = .ok s' ∧ s'.table = s.table ∧
      ∃ path fault, (stubsCorpus.withStrict true).load mixedTree ⟨3, 3⟩ =
        .error (.fileFault ⟨3, 3⟩ path fault) := by
  let directory := stubsCorpus.snapshotDirectory ⟨3, 3⟩
  let good : List UInt8 := "class Circle\nend\n".toList.flatMap String.utf8EncodeChar
  let bad : List UInt8 := "end\n".toList.flatMap String.utf8EncodeChar
  have below : mixedTree.below directory =
      [(["area.rb"], .file [0xFF]), (["circle.rb"], .file good), (["shape.rb"], .file bad),
        (["curves"], .directory), (["curves", "quadratic_bezier.rb"], .file []),
        (["notes_on_shapes.txt"], .file [0xFF])] := by
    decide
  have cleared : clearedTree.below directory =
      [(["circle.rb"], .file good), (["curves"], .directory),
        (["curves", "quadratic_bezier.rb"], .file []),
        (["notes_on_shapes.txt"], .file [0xFF])] := by
    decide
  have normal : stubsCorpus.directory.Normal := by
    unfold Path.Normal
    decide
  have files : ∀ e ∈ stubsCorpus.stubEntries mixedTree ⟨3, 3⟩, ∃ bytes, e.2 = .file bytes := by
    intro e he
    obtain ⟨rest, listed, named, -⟩ := mem_stubEntries_iff.mp he
    rw [below] at listed
    simp only [List.mem_cons, List.not_mem_nil, or_false, Prod.mk.injEq] at listed
    rcases listed with ⟨-, node⟩ | ⟨-, node⟩ | ⟨-, node⟩ | ⟨rfl, -⟩ | ⟨-, node⟩ | ⟨-, node⟩
    · exact ⟨_, node⟩
    · exact ⟨_, node⟩
    · exact ⟨_, node⟩
    · exact absurd named (by decide)
    · exact ⟨_, node⟩
    · exact ⟨_, node⟩
  obtain ⟨entry, s, loaded, separates, -, others, strict, -⟩ :=
    load_isolates_faults mixedTree_proper normal files
  have area : (directory.append ["area.rb"]).text ∈ s.errors.map (·.path) := by
    refine (separates.faulty _ [0xFF] ((entry _).mpr ⟨[], "area", ?_, rfl⟩)).mpr ?_
    · rw [below]
      simp
    · exact readStubs_eq_error_iff.mp ⟨.notText ⟨0, 1, 0xFF, .invalidStart⟩, by decide⟩
  have shape : (directory.append ["shape.rb"]).text ∈ s.errors.map (·.path) := by
    refine (separates.faulty _ bad ((entry _).mpr ⟨[], "shape", ?_, rfl⟩)).mpr ?_
    · rw [below]
      simp
    · exact readStubs_eq_error_iff.mp
        ⟨.notStubs ⟨(directory.append ["shape.rb"]).text, 1, .unexpectedEnd⟩, by decide⟩
  have readable (rest : List String) (bytes : List UInt8)
      (listed : (directory.append rest, .file bytes) ∈ stubsCorpus.stubEntries mixedTree ⟨3, 3⟩)
      (read : (readStubs (directory.append rest).text bytes).isOk = true) :
      (directory.append rest).text ∉ s.errors.map (·.path) := by
    intro reported
    obtain ⟨fault, refused⟩ :=
      readStubs_eq_error_iff.mpr ((separates.faulty _ bytes listed).mp reported)
    rw [refused] at read
    cases read
  have failing (path : String) : path ∈ s.errors.map (·.path) ↔
      path = (directory.append ["area.rb"]).text ∨ path = (directory.append ["shape.rb"]).text := by
    constructor
    · intro reported
      have counted := separates.once.mem_iff.mp (List.mem_append_right _ reported)
      obtain ⟨⟨place, node⟩, listed, rfl⟩ := List.mem_map.mp counted
      obtain ⟨rest, inside, named, rfl⟩ := mem_stubEntries_iff.mp listed
      rw [below] at inside
      simp only [List.mem_cons, List.not_mem_nil, or_false, Prod.mk.injEq] at inside
      rcases inside with ⟨rfl, rfl⟩ | ⟨rfl, rfl⟩ | ⟨rfl, rfl⟩ | ⟨rfl, rfl⟩ | ⟨rfl, rfl⟩ | ⟨rfl, rfl⟩
      · exact .inl rfl
      · exact absurd reported (readable _ _ listed (by decide))
      · exact .inr rfl
      · exact absurd named (by decide)
      · exact absurd reported (readable _ _ listed (by decide))
      · exact absurd named (by decide)
    · rintro (rfl | rfl)
      · exact area
      · exact shape
  have deleted : mixedTree.Deletes directory (s.errors.map (·.path)) clearedTree := by
    intro e
    rw [cleared, below, failing]
    simp only [List.mem_cons, List.not_mem_nil, or_false]
    constructor
    · rintro (rfl | rfl | rfl | rfl)
      · exact ⟨.inr (.inl rfl), by decide⟩
      · exact ⟨.inr (.inr (.inr (.inl rfl))), by decide⟩
      · exact ⟨.inr (.inr (.inr (.inr (.inl rfl)))), by decide⟩
      · exact ⟨.inr (.inr (.inr (.inr (.inr rfl)))), by decide⟩
    · rintro ⟨rfl | rfl | rfl | rfl | rfl | rfl, kept⟩
      · exact absurd (.inl rfl) kept
      · exact .inl rfl
      · exact absurd (.inr rfl) kept
      · exact .inr (.inl rfl)
      · exact .inr (.inr (.inl rfl))
      · exact .inr (.inr (.inr rfl))
  obtain ⟨s', loaded', -, -, table⟩ :=
    others clearedTree ((mixedTree_proper.remove _).remove _) deleted
  refine ⟨s, s', loaded, loaded', table, strict.mpr ?_⟩
  intro none
  rw [none] at area
  cases area

end Corpus

end RubyIndex
