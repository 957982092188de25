import Mathlib.Data.List.Nodup
import RubyIndex.Corpus.Load
import RubyIndex.Proofs.DirectoryNames
import RubyIndex.Proofs.TreeEntries

/-! The versions that a corpus lists, against the directories they were read from. A version is
loaded from the directory with the name that the version is written as. Other names are read as
versions too, those with more zeros than are needed, with digits of another script or with a line
feed at the end, and such a directory is listed but never loaded. The stubs are below the working
directory here: with an absolute directory there are none in any tree. -/
namespace RubyIndex

namespace Version

variable {v : Version} {versions : List Version} {name : String}

theorem mem_sort : v ∈ sort versions ↔ v ∈ versions := List.mem_mergeSort

theorem pairwise_sort (versions : List Version) :
    (sort versions).Pairwise (·.le · = true) := List.pairwise_mergeSort le_trans le_total _

theorem ne_of_lt {w : Version} (h : v.lt w = true) : v ≠ w := by
  rintro rfl
  have less := lt_iff.mp h
  omega

/-- A version that is read from a name is read from the name that it is written as. -/
theorem ofDirectoryName_directoryName (h : ofDirectoryName name = .ok v) :
    ofDirectoryName v.directoryName = .ok v := by
  have single := major_lt_of_ofDirectoryChars? (ofDirectoryName_eq_ok_iff.mp h)
  exact ofDirectoryName_eq_ok_iff.mpr (ofDirectoryChars?_directoryName single)

end Version

namespace Corpus

variable {c : Corpus} {t : FileTree} {v : Version} {name : String} {versions : List Version}

def HasDirectory (c : Corpus) (t : FileTree) (name : String) (v : Version) : Prop :=
  (name, .directory) ∈ t.children c.directory ∧ Version.ofDirectoryName name = .ok v

/-- Each directory that is named for a version is listed once and is where the version is loaded
from. -/
structure Discovers (c : Corpus) (t : FileTree) (versions : List Version) : Prop where
  increasing : versions.Pairwise (·.lt · = true)
  existing : ∀ v ∈ versions, t.isDirectory (c.snapshotDirectory v) = true ∧
    Version.ofDirectoryName v.directoryName = .ok v
  discovered : ∀ name v, c.HasDirectory t name v →
    ∃! w, w ∈ versions ∧ c.snapshotDirectory w = c.directory.append [name]

theorem mem_versionDirectories_iff :
    (name, v) ∈ c.versionDirectories t ↔ c.HasDirectory t name v := by
  rw [versionDirectories, List.mem_filterMap, HasDirectory, Version.ofDirectoryName_eq_ok_iff]
  constructor
  · rintro ⟨⟨found, _ | bytes⟩, entry, picked⟩
    · obtain ⟨w, read, same⟩ := Option.map_eq_some_iff.mp picked
      cases same
      exact ⟨entry, read⟩
    · cases picked
  · rintro ⟨entry, read⟩
    exact ⟨_, entry, by simp [read]⟩

theorem mem_sort_versionDirectories :
    v ∈ Version.sort ((c.versionDirectories t).map (·.2)) ↔ ∃ name, c.HasDirectory t name v := by
  simp [Version.mem_sort, mem_versionDirectories_iff]

theorem distinct_versionDirectories (h : t.Proper) :
    (c.versionDirectories t).Pairwise fun a b => a.1 ≠ b.1 := by
  refine (h.distinct_children c.directory).filterMap _ ?_
  rintro ⟨a, _ | _⟩ ⟨b, _ | _⟩ apart x hx y hy
  · obtain ⟨-, -, rfl⟩ := Option.map_eq_some_iff.mp hx
    obtain ⟨-, -, rfl⟩ := Option.map_eq_some_iff.mp hy
    exact apart
  all_goals first | cases hx | cases hy

theorem snapshotDirectory_eq_iff :
    c.snapshotDirectory v = c.directory.append [name] ↔ v.directoryName = name := by
  simp [snapshotDirectory, Path.append]

theorem availableVersions_eq (found : t.isDirectory c.directory = true)
    (short : c.longEntry? t = none) :
    c.availableVersions t = .ok (Version.sort ((c.versionDirectories t).map (·.2))) := by
  simp only [availableVersions, FileTree.isDirectory_iff_node.mp found, short]

theorem not_isLong_of_longEntry?_eq_none {node : Node} (short : c.longEntry? t = none)
    (child : (name, node) ∈ t.children c.directory) :
    Path.isLong (c.directory.append [name]).text = false := by
  have fits := List.find?_eq_none.mp short (c.directory.append [name])
    (List.mem_map.mpr ⟨_, child, rfl⟩)
  simpa using fits

/-- The list increases strictly exactly when no two directories are named for one version. -/
theorem increasing_iff (h : t.Proper) :
    (Version.sort ((c.versionDirectories t).map (·.2))).Pairwise (·.lt · = true) ↔
      ∀ name other v, c.HasDirectory t name v → c.HasDirectory t other v → name = other := by
  constructor
  · intro increasing name other v has has'
    have nodup : (Version.sort ((c.versionDirectories t).map (·.2))).Nodup :=
      increasing.imp Version.ne_of_lt
    have same := List.inj_on_of_nodup_map ((List.mergeSort_perm _ _).nodup_iff.mp nodup)
      (mem_versionDirectories_iff.mpr has) (mem_versionDirectories_iff.mpr has') rfl
    exact congrArg Prod.fst same
  · intro single
    have nodup : ((c.versionDirectories t).map (·.2)).Nodup := by
      refine List.pairwise_map.mpr ((distinct_versionDirectories h).imp_of_mem ?_)
      rintro ⟨name, v⟩ ⟨other, w⟩ hname hother apart same
      obtain rfl : v = w := same
      exact apart (single name other v (mem_versionDirectories_iff.mp hname)
        (mem_versionDirectories_iff.mp hother))
    have apart := (List.mergeSort_perm _ Version.le).nodup_iff.mpr nodup
    refine (Version.pairwise_sort _).imp₂ ?_ apart
    intro v w le ne
    exact (Version.le_iff.mp le).resolve_right ne

theorem discovers_iff (h : t.Proper) (found : t.isDirectory c.directory = true)
    (short : c.longEntry? t = none) :
    c.Discovers t (Version.sort ((c.versionDirectories t).map (·.2))) ↔
      ∀ name v, c.HasDirectory t name v → name = v.directoryName := by
  constructor
  · intro discovers name v has
    obtain ⟨w, ⟨listed, same⟩, -⟩ := discovers.discovered name v has
    obtain rfl := snapshotDirectory_eq_iff.mp same
    have read := (discovers.existing w listed).2
    rw [has.2] at read
    rw [Except.ok.inj read]
  · intro written
    constructor
    · rw [increasing_iff h]
      intro name other v has has'
      rw [written name v has, written other v has']
    · intro v listed
      obtain ⟨name, has⟩ := mem_sort_versionDirectories.mp listed
      have same := written name v has
      have place : c.snapshotDirectory v = c.directory.append [name] :=
        snapshotDirectory_eq_iff.mpr same.symm
      have there := h.node_child found (not_isLong_of_longEntry?_eq_none short has.1) has.1
      rw [place]
      exact ⟨FileTree.isDirectory_iff_node.mpr there, Version.ofDirectoryName_directoryName has.2⟩
    · intro name v has
      refine ⟨v, ⟨mem_sort_versionDirectories.mpr ⟨name, has⟩,
        snapshotDirectory_eq_iff.mpr (written name v has).symm⟩, ?_⟩
      rintro w ⟨listed, same⟩
      obtain rfl := snapshotDirectory_eq_iff.mp same
      obtain ⟨other, has'⟩ := mem_sort_versionDirectories.mp listed
      have read := Version.ofDirectoryName_directoryName has'.2
      rw [has.2] at read
      exact (Except.ok.inj read).symm

/-- The list holds the version of each directory as often as there is a directory for it, and what
is listed is where it is loaded from exactly when every directory has the name that its version is
written as. -/
theorem availableVersions_discovers_iff (h : t.Proper)
    (found : t.isDirectory c.directory = true) (short : c.longEntry? t = none) :
    ∃ versions, c.availableVersions t = .ok versions ∧
      versions.Perm ((c.versionDirectories t).map (·.2)) ∧
      versions.Pairwise (·.le · = true) ∧
      (versions.Pairwise (·.lt · = true) ↔
        ∀ name other v, c.HasDirectory t name v → c.HasDirectory t other v → name = other) ∧
      (c.Discovers t versions ↔ ∀ name v, c.HasDirectory t name v → name = v.directoryName) :=
  ⟨_, availableVersions_eq found short, List.mergeSort_perm _ _, Version.pairwise_sort _,
    increasing_iff h, discovers_iff h found short⟩

def stubsCorpus : Corpus where
  directory := { parts := ["stubs"] }

def plainTree : FileTree :=
  (({} : FileTree).makeDirectory ["stubs", "rubystubs33"]).makeDirectory ["stubs", "rubystubs27"]

theorem plainTree_proper : plainTree.Proper :=
  (FileTree.proper_empty.makeDirectory (by decide)).makeDirectory (by decide)

theorem plain_directories_discovered : ∃ versions,
    stubsCorpus.availableVersions plainTree = .ok versions ∧
      stubsCorpus.Discovers plainTree versions := by
  obtain ⟨versions, listed, -, -, -, discovers⟩ :=
    availableVersions_discovers_iff (c := stubsCorpus) plainTree_proper (by decide)
      (by decide)
  refine ⟨versions, listed, discovers.mpr ?_⟩
  intro name v has
  have children : plainTree.children stubsCorpus.directory =
      [("rubystubs33", .directory), ("rubystubs27", .directory)] := by decide
  obtain ⟨entry, read⟩ := has
  rw [children] at entry
  simp only [List.mem_cons, List.not_mem_nil, or_false, Prod.mk.injEq, and_true] at entry
  rcases entry with rfl | rfl
  · have v33 : Version.ofDirectoryName "rubystubs33" = .ok ⟨3, 3⟩ := by decide
    rw [v33] at read
    rw [← Except.ok.inj read]
    decide
  · have v27 : Version.ofDirectoryName "rubystubs27" = .ok ⟨2, 7⟩ := by decide
    rw [v27] at read
    rw [← Except.ok.inj read]
    decide

def crowdedTree : FileTree :=
  (({} : FileTree).makeDirectory ["stubs", "rubystubs33"]).makeDirectory ["stubs", "rubystubs303"]

def paddedTree : FileTree := ({} : FileTree).makeDirectory ["stubs", "rubystubs303"]

/-- Two directories are listed as one version twice. The one with the longer name alone is listed
as a version without a directory. -/
theorem padded_directory_not_discovered :
    stubsCorpus.availableVersions crowdedTree = .ok [⟨3, 3⟩, ⟨3, 3⟩] ∧
      ¬ stubsCorpus.Discovers crowdedTree [⟨3, 3⟩, ⟨3, 3⟩] ∧
      stubsCorpus.availableVersions paddedTree = .ok [⟨3, 3⟩] ∧
      paddedTree.isDirectory (stubsCorpus.snapshotDirectory ⟨3, 3⟩) = false := by
  have crowded : stubsCorpus.versionDirectories crowdedTree =
      [("rubystubs33", ⟨3, 3⟩), ("rubystubs303", ⟨3, 3⟩)] := by decide
  have padded : stubsCorpus.versionDirectories paddedTree =
      [("rubystubs303", ⟨3, 3⟩)] := by decide
  refine ⟨?_, ?_, ?_, by decide⟩
  · rw [availableVersions_eq (by decide) (by decide), crowded, Version.sort,
      List.mergeSort_of_pairwise (by decide)]
    rfl
  · intro discovers
    exact absurd discovers.increasing (by decide)
  · rw [availableVersions_eq (by decide) (by decide), padded, Version.sort,
      List.mergeSort_of_pairwise (by decide)]
    rfl

end Corpus

end RubyIndex
