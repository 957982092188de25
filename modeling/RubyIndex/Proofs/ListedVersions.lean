import RubyIndex.Corpus.Cache
import RubyIndex.Proofs.FaultIsolation
import RubyIndex.Server.Answer

/-! The list of versions against what can be loaded of them. The list counts everything that is
named like a stub file, and loading opens everything that is counted. A directory with such a name
makes loading fail, although the faults of files are put up with. The statements are about trees of
directories and readable files below the working directory: links that lead nowhere and files that
may not be read are not among them, and an absolute directory holds no stubs in any of them. -/
namespace RubyIndex

namespace Corpus

variable {c : Corpus} {t : FileTree} {v : Version} {s : Snapshot}

/-- Below the directory of the version no directory is named like a stub file. -/
def NamesOnlyFiles (c : Corpus) (t : FileTree) (v : Version) : Prop :=
  ∀ rest, (rest, .directory) ∈ t.below (c.snapshotDirectory v) →
    rest.getLast?.any isStubName = false

theorem exists_file_of_namesOnlyFiles (h : c.NamesOnlyFiles t v) :
    ∀ e ∈ c.stubEntries t v, ∃ bytes, e.2 = .file bytes := by
  intro e he
  obtain ⟨rest, listed, named, -⟩ := mem_stubEntries_iff.mp he
  cases node : e.2 with
  | file bytes => exact ⟨bytes, rfl⟩
  | directory =>
    rw [node] at listed
    rw [h rest listed] at named
    cases named

theorem length_stubEntries (c : Corpus) (t : FileTree) (v : Version) : (c.stubEntries t v).length =
    ((t.below (c.snapshotDirectory v)).filter fun e => e.1.getLast?.any isStubName).length := by
  rw [stubEntries, List.length_map, List.length_mergeSort]

/-- Each file is read or reported. -/
theorem length_filesOf_add_errorsOf (inputs : List (Path × List UInt8)) :
    (filesOf inputs).length + (errorsOf inputs).length = inputs.length := by
  have files := congrArg List.length (map_path_filesOf inputs)
  have errors := congrArg List.length (map_path_errorsOf inputs)
  rw [List.length_map, List.length_map] at files errors
  rw [files, errors]
  exact (List.length_eq_length_filter_add fun e => (outcome e).isLeft).symm

theorem withStrict_of_lenient (lenient : c.strict = false) : c.withStrict false = c := by
  obtain ⟨directory, default, strict⟩ := c
  obtain rfl : strict = false := lenient
  rfl

theorem load_of_namesOnlyFiles (lenient : c.strict = false) (h : c.NamesOnlyFiles t v) :
    ∃ s, c.load t v = .ok s ∧ s.version = v ∧
      s.files.length + s.errors.length = (c.stubEntries t v).length := by
  obtain ⟨inputs, entries⟩ := exists_map_fileEntry (exists_file_of_namesOnlyFiles h)
  have loaded : (c.withStrict false).load t v = .ok (c.separated v inputs) :=
    load_eq_separated entries fun e _ => loadEntry_lenient e
  rw [withStrict_of_lenient lenient] at loaded
  refine ⟨c.separated v inputs, loaded, rfl, ?_⟩
  rw [entries, List.length_map]
  exact length_filesOf_add_errorsOf inputs

/-- Faults of files are put up with, so that only a directory makes loading fail. -/
theorem directory_of_load_error (lenient : c.strict = false) {error : CorpusError}
    (failed : c.load t v = .error error) :
    ∃ rest, (rest, .directory) ∈ t.below (c.snapshotDirectory v) ∧
      rest.getLast?.any isStubName = true ∧
      error = .directoryAsFile ((c.snapshotDirectory v).append rest).text := by
  obtain ⟨⟨path, node⟩, listed, refused⟩ := loadEntry_of_load_error failed
  obtain ⟨rest, below, named, rfl⟩ := mem_stubEntries_iff.mp listed
  cases node with
  | directory =>
    cases refused
    exact ⟨rest, below, named, rfl⟩
  | file bytes =>
    have accepted :=
      loadEntry_lenient (c := c) (v := v) ((c.snapshotDirectory v).append rest, bytes)
    rw [withStrict_of_lenient lenient, fileEntry, refused] at accepted
    cases accepted

theorem load_ok_iff (lenient : c.strict = false) :
    (∃ s, c.load t v = .ok s) ↔ c.NamesOnlyFiles t v := by
  constructor
  · rintro ⟨s, loaded⟩ rest listed
    by_contra named
    have named : rest.getLast?.any isStubName = true := by simpa using named
    have entry : ((c.snapshotDirectory v).append rest, Node.directory) ∈ c.stubEntries t v :=
      mem_stubEntries_iff.mpr ⟨rest, listed, named, rfl⟩
    obtain ⟨r, opened⟩ := loadEntry_of_load loaded entry
    cases opened
  · intro h
    obtain ⟨s, loaded, -⟩ := load_of_namesOnlyFiles lenient h
    exact ⟨s, loaded⟩

/-- A version with a directory is used when its text is requested. -/
theorem resolveVersion_text {versions : List Version}
    (available : c.availableVersions t = .ok versions) (hv : v ∈ versions) :
    c.resolveVersion t (some v.text) = .ok v := by
  have closest : v.closest? versions = some v := by simp [Version.closest?, hv]
  simp only [resolveVersion, available, bind, Except.bind, Version.parse_text, choose,
    Option.some_or, closest]

end Corpus

namespace SnapshotCache

variable {cache : SnapshotCache} {client : Client} {tree : FileTree} {v : Version}

/-- What has been kept of the files as they are is what would be loaded. -/
theorem fst_load (kept : ∀ s, cache.find? client.number v = some s →
    client.corpus.load tree v = .ok s) :
    (cache.load client tree v).1 = client.corpus.load tree v := by
  unfold load
  cases found : cache.find? client.number v with
  | some s => exact (kept s found).symm
  | none => cases client.corpus.load tree v <;> rfl

/-- The snapshot for the text of a version with a directory is the one that is loaded. -/
theorem fst_snapshot_text {versions : List Version}
    (available : client.corpus.availableVersions tree = .ok versions) (hv : v ∈ versions)
    (kept : ∀ s, cache.find? client.number v = some s → client.corpus.load tree v = .ok s) :
    (cache.snapshot client tree (some v.text)).1 = client.corpus.load tree v := by
  unfold SnapshotCache.snapshot
  rw [Corpus.resolveVersion_text available hv]
  exact fst_load kept

end SnapshotCache

/-- A report counts the files with errors too. -/
theorem Lint.files_of_lint {s : Snapshot} {rules disabled : List String} {report : Report}
    (linted : lint s rules disabled = .ok report) :
    report.files = s.files.length + s.errors.length := by
  unfold lint at linted
  cases selected : selectRules rules disabled with
  | error e =>
    rw [selected] at linted
    cases linted
  | ok rules =>
    rw [selected] at linted
    cases linted
    rfl

namespace Server

open SnapshotCache

theorem mem_versionList {c : Corpus} {t : FileTree} {list : VersionList} {entry : VersionEntry}
    (listed : versionList c t = .ok list) (member : entry ∈ list.versions) :
    ∃ versions, c.availableVersions t = .ok versions ∧ entry.version ∈ versions ∧
      entry.files = (c.stubEntries t entry.version).length := by
  unfold versionList at listed
  cases available : c.availableVersions t with
  | error e =>
    rw [available] at listed
    cases listed
  | ok versions =>
    have entries : list.versions = versions.map fun v => ⟨v, (c.stubEntries t v).length⟩ := by
      simp only [available] at listed
      split at listed
      · cases listed
        rfl
      · split at listed
        · cases listed
          rfl
        · cases listed
    rw [entries] at member
    obtain ⟨v, hv, rfl⟩ := List.mem_map.mp member
    exact ⟨versions, rfl, hv, rfl⟩

/-- In a tree of directories and readable files, a version on the list can be loaded exactly if no
directory is named like a stub file. Then the number of files on the list is the number of the files
that are loaded and of those with errors, and the one in reports. -/
theorem listed_version_loads_iff {client : Client} {tree : FileTree} {cache : SnapshotCache}
    {list : VersionList} {entry : VersionEntry} (lenient : client.corpus.strict = false)
    (listed : versionList client.corpus tree = .ok list) (member : entry ∈ list.versions)
    (kept : ∀ s, cache.find? client.number entry.version = some s →
      client.corpus.load tree entry.version = .ok s) :
    ((∃ s, (cache.snapshot client tree (some entry.version.text)).1 = .ok s) ↔
        client.corpus.NamesOnlyFiles tree entry.version) ∧
      (∀ s, (cache.snapshot client tree (some entry.version.text)).1 = .ok s →
        s.version = entry.version ∧ s.files.length + s.errors.length = entry.files ∧
          ∀ rules disabled report, Lint.lint s rules disabled = .ok report →
            report.files = entry.files) ∧
      ∀ e, (cache.snapshot client tree (some entry.version.text)).1 = .error e →
        ∃ rest, (rest, .directory) ∈ tree.below (client.corpus.snapshotDirectory entry.version) ∧
          rest.getLast?.any Corpus.isStubName = true ∧
          e = .directoryAsFile
            ((client.corpus.snapshotDirectory entry.version).append rest).text := by
  obtain ⟨versions, available, hv, files⟩ := mem_versionList listed member
  rw [fst_snapshot_text available hv kept]
  refine ⟨Corpus.load_ok_iff lenient, ?_, fun e => Corpus.directory_of_load_error lenient⟩
  intro s loaded
  obtain ⟨s', loaded', version, count⟩ := Corpus.load_of_namesOnlyFiles lenient
    ((Corpus.load_ok_iff lenient).mp ⟨s, loaded⟩)
  obtain rfl : s' = s := Except.ok.inj (loaded'.symm.trans loaded)
  have whole := count.trans files.symm
  exact ⟨version, whole, fun _ _ _ linted => (Lint.files_of_lint linted).trans whole⟩

def freshClient : Client where
  number := 0
  corpus := Corpus.stubsCorpus

theorem versionList_of_one {t : FileTree} {name : String} {v : Version}
    (found : t.isDirectory Corpus.stubsCorpus.directory = true)
    (short : Corpus.stubsCorpus.longEntry? t = none)
    (named : Corpus.stubsCorpus.versionDirectories t = [(name, v)]) :
    versionList Corpus.stubsCorpus t =
      .ok ⟨some v, [⟨v, (Corpus.stubsCorpus.stubEntries t v).length⟩]⟩ := by
  have available : Corpus.stubsCorpus.availableVersions t = .ok [v] := by
    rw [Corpus.availableVersions_eq found short, named, Version.sort,
      List.mergeSort_of_pairwise (by simp)]
    rfl
  simp only [versionList, Corpus.resolveVersion, available]
  rfl

/-- Two of the four files that are listed cannot be read. -/
theorem mixed_files_listed : ∃ list s, versionList freshClient.corpus Corpus.mixedTree = .ok list ∧
    list.versions = [⟨⟨3, 3⟩, 4⟩] ∧
    (({} : SnapshotCache).snapshot freshClient Corpus.mixedTree (some "3.3")).1 = .ok s ∧
    s.files.length + s.errors.length = 4 := by
  have below : Corpus.mixedTree.below (Corpus.stubsCorpus.snapshotDirectory ⟨3, 3⟩) =
      [(["area.rb"], .file [0xFF]),
        (["circle.rb"], .file ("class Circle\nend\n".toList.flatMap String.utf8EncodeChar)),
        (["shape.rb"], .file ("end\n".toList.flatMap String.utf8EncodeChar)),
        (["curves"], .directory), (["curves", "quadratic_bezier.rb"], .file []),
        (["notes_on_shapes.txt"], .file [0xFF])] := by decide
  have count : (Corpus.stubsCorpus.stubEntries Corpus.mixedTree ⟨3, 3⟩).length = 4 := by
    rw [Corpus.length_stubEntries, below]
    decide
  have listed := @versionList_of_one Corpus.mixedTree "rubystubs33" ⟨3, 3⟩ (by decide)
    (by decide) (by decide)
  rw [count] at listed
  have onlyFiles : freshClient.corpus.NamesOnlyFiles Corpus.mixedTree ⟨3, 3⟩ := by
    intro rest listed
    change (rest, Node.directory) ∈
      Corpus.mixedTree.below (Corpus.stubsCorpus.snapshotDirectory ⟨3, 3⟩) at listed
    rw [below] at listed
    obtain rfl : rest = ["curves"] := by simpa using listed
    decide
  have text : Version.text ⟨3, 3⟩ = "3.3" := by decide
  obtain ⟨loads, same, -⟩ := @listed_version_loads_iff freshClient Corpus.mixedTree {} _
    ⟨⟨3, 3⟩, 4⟩ rfl listed List.mem_cons_self (fun s kept => nomatch kept)
  obtain ⟨s, loaded⟩ := loads.mpr onlyFiles
  refine ⟨_, s, listed, rfl, ?_, (same s loaded).2.1⟩
  rw [← text]
  exact loaded

def namedDirectoryTree : FileTree :=
  ({} : FileTree).makeDirectory ["stubs", "rubystubs33", "shapes.rb"]

/-- The directory is counted as a file, and no snapshot can be had. -/
theorem named_directory_listed_not_loaded :
    versionList freshClient.corpus namedDirectoryTree = .ok ⟨some ⟨3, 3⟩, [⟨⟨3, 3⟩, 1⟩]⟩ ∧
      freshClient.corpus.strict = false ∧
      (({} : SnapshotCache).snapshot freshClient namedDirectoryTree (some "3.3")).1 =
        .error (.directoryAsFile "stubs/rubystubs33/shapes.rb") := by
  have below : namedDirectoryTree.below (Corpus.stubsCorpus.snapshotDirectory ⟨3, 3⟩) =
      [(["shapes.rb"], .directory)] := by decide
  have entries : Corpus.stubsCorpus.stubEntries namedDirectoryTree ⟨3, 3⟩ =
      [((Corpus.stubsCorpus.snapshotDirectory ⟨3, 3⟩).append ["shapes.rb"], .directory)] := by
    have named : ([(["shapes.rb"], Node.directory)].filter fun e =>
        e.1.getLast?.any Corpus.isStubName) = [(["shapes.rb"], Node.directory)] := by
      decide
    rw [Corpus.stubEntries, below, named, List.mergeSort_singleton]
    rfl
  have listed := @versionList_of_one namedDirectoryTree "rubystubs33" ⟨3, 3⟩ (by decide)
    (by decide) (by decide)
  rw [entries] at listed
  obtain ⟨versions, available, hv, -⟩ := mem_versionList listed List.mem_cons_self
  have text : Version.text ⟨3, 3⟩ = "3.3" := by decide
  have loaded := @fst_snapshot_text {} freshClient namedDirectoryTree ⟨3, 3⟩ versions available hv
    (fun s kept => nomatch kept)
  rw [text] at loaded
  refine ⟨listed, rfl, ?_⟩
  rw [loaded]
  change Corpus.stubsCorpus.load namedDirectoryTree ⟨3, 3⟩ = _
  rw [Corpus.load, entries]
  decide

end Server

end RubyIndex
