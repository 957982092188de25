import Mathlib.Data.List.Induction
import RubyIndex.Proofs.LoadedFiles
import RubyIndex.Server.Session

/-! Snapshots that are kept between questions. A snapshot is one of the kept ones or loaded from
files, and then it is kept itself, so that whoever asks again is answered from the same one.
Whatever has been asked before, a snapshot holds files that have been read from texts. -/
namespace RubyIndex

structure Snapshot.Parsed (s : Snapshot) : Prop where
  table : s.table = SymbolTable.ofFiles s.files
  files : ∀ f ∈ s.files, f.Parsed

namespace Corpus

variable {c : Corpus} {tree : FileTree} {v : Version} {s : Snapshot}

theorem version_of_load (loaded : c.load tree v = .ok s) : s.version = v := by
  obtain ⟨results, -, rfl⟩ := forall₂_of_load loaded
  rfl

theorem parsed_of_load (loaded : c.load tree v = .ok s) : s.Parsed := by
  obtain ⟨results, each, rfl⟩ := forall₂_of_load loaded
  exact ⟨rfl, (sublist_of_loaded each).2⟩

end Corpus

namespace SnapshotCache

variable {c : SnapshotCache} {client : Client} {tree : FileTree} {v : Version} {s : Snapshot}
  {requested : Option String} {number : Nat}

theorem find?_keep (c : SnapshotCache) (number : Nat) (s : Snapshot) :
    (c.keep number s).find? number s.version = some s := by
  simp [keep, find?, capacity, isFor]

theorem mem_of_find? (h : c.find? number v = some s) : (number, s) ∈ c.entries ∧ s.version = v := by
  obtain ⟨entry, found, rfl⟩ := Option.map_eq_some_iff.mp h
  have own := List.find?_some found
  simp only [isFor, Bool.and_eq_true, beq_iff_eq] at own
  obtain ⟨rfl, version⟩ := own
  exact ⟨List.mem_of_find?_eq_some found, version⟩

/-- A snapshot that can be had has been kept for the client or is loaded from its files. Then it is
kept. -/
theorem load_cases (h : (c.load client tree v).1 = .ok s) :
    ((client.number, s) ∈ c.entries ∨ client.corpus.load tree v = .ok s) ∧
      (c.load client tree v).2.find? client.number v = some s := by
  unfold load at h ⊢
  cases found : c.find? client.number v with
  | some kept =>
    rw [found] at h
    obtain rfl := Except.ok.inj h
    -- A snapshot is kept under its own version, which is the one that was looked for.
    obtain ⟨listed, rfl⟩ := mem_of_find? found
    exact ⟨.inl listed, find?_keep c client.number kept⟩
  | none =>
    rw [found] at h
    cases loaded : client.corpus.load tree v with
    | error e =>
      rw [loaded] at h
      cases h
    | ok fresh =>
      rw [loaded] at h
      obtain rfl := Except.ok.inj h
      obtain rfl := Corpus.version_of_load loaded
      exact ⟨.inr rfl, find?_keep c.makeRoom client.number fresh⟩

/-- A snapshot is had for a version, the one that the request is resolved to. -/
theorem snapshot_cases (h : (c.snapshot client tree requested).1 = .ok s) :
    ∃ v, client.corpus.resolveVersion tree requested = .ok v ∧
      (c.load client tree v).1 = .ok s := by
  unfold snapshot at h
  cases resolved : client.corpus.resolveVersion tree requested with
  | error e =>
    rw [resolved] at h
    cases h
  | ok v =>
    rw [resolved] at h
    exact ⟨v, rfl, h⟩

/-- Whoever asks again is answered from the same snapshot. -/
theorem snapshot_again (h : (c.snapshot client tree requested).1 = .ok s) :
    ((c.snapshot client tree requested).2.snapshot client tree requested).1 = .ok s := by
  obtain ⟨v, resolved, had⟩ := snapshot_cases h
  obtain ⟨-, kept⟩ := load_cases had
  unfold snapshot
  simp only [resolved]
  rw [load, kept]

def Sound (c : SnapshotCache) : Prop := ∀ entry ∈ c.entries, entry.2.Parsed

theorem sound_empty : Sound {} := List.forall_mem_nil _

theorem Sound.makeRoom (h : c.Sound) : c.makeRoom.Sound := by
  intro entry listed
  exact h entry (List.mem_of_mem_take listed)

theorem Sound.keep (h : c.Sound) (number : Nat) (parsed : s.Parsed) : (c.keep number s).Sound := by
  intro entry listed
  rcases List.mem_cons.mp (List.mem_of_mem_take listed) with rfl | listed
  · exact parsed
  · exact h entry (List.mem_of_mem_filter listed)

theorem Sound.load (h : c.Sound) (client : Client) (tree : FileTree) (v : Version) :
    (c.load client tree v).2.Sound := by
  unfold SnapshotCache.load
  cases found : c.find? client.number v with
  | some kept => exact h.keep client.number (h _ (mem_of_find? found).1)
  | none =>
    cases loaded : client.corpus.load tree v with
    | ok fresh => exact h.makeRoom.keep client.number (Corpus.parsed_of_load loaded)
    | error e => exact h.makeRoom

theorem Sound.snapshot (h : c.Sound) (client : Client) (tree : FileTree)
    (requested : Option String) : (c.snapshot client tree requested).2.Sound := by
  unfold SnapshotCache.snapshot
  cases client.corpus.resolveVersion tree requested with
  | ok v => exact h.load client tree v
  | error e => exact h

theorem Sound.parsed (h : c.Sound) (had : (c.snapshot client tree requested).1 = .ok s) :
    s.Parsed := by
  obtain ⟨v, -, had⟩ := snapshot_cases had
  obtain ⟨kept | loaded, -⟩ := load_cases had
  · exact h _ kept
  · exact Corpus.parsed_of_load loaded

end SnapshotCache

namespace Server

open SnapshotCache

variable {cache : SnapshotCache}

/-- A question about a version is answered from its snapshot, if that can be had. -/
theorem answer_about (session : Session) (cache : SnapshotCache) (tree : FileTree)
    (version : Option String) (lookup : Lookup) :
    session.answer cache tree (.about version lookup) =
      ((cache.snapshot session.client tree version).1.mapError .corpus >>=
          lookup.answer session.limit,
        (cache.snapshot session.client tree version).2) := by
  simp only [Session.answer]
  obtain ⟨e | s, later⟩ := cache.snapshot session.client tree version
  · rfl
  · rfl

structure Asked where
  session : Session
  tree : FileTree
  question : Question

/-- The snapshots that are kept after questions of any sessions, the first of them put when nothing
has been loaded. -/
def cacheAfter (earlier : List Asked) : SnapshotCache :=
  earlier.foldl (fun cache asked => (asked.session.answer cache asked.tree asked.question).2) {}

theorem sound_answer (h : cache.Sound) (session : Session) (tree : FileTree)
    (question : Question) : (session.answer cache tree question).2.Sound := by
  cases question with
  | versions => exact h
  | about version lookup =>
    rw [answer_about]
    exact h.snapshot session.client tree version

theorem sound_cacheAfter (earlier : List Asked) : (cacheAfter earlier).Sound := by
  induction earlier using List.reverseRecOn with
  | nil => exact sound_empty
  | append_singleton earlier asked ih =>
    rw [cacheAfter, List.foldl_append]
    exact sound_answer ih asked.session asked.tree asked.question

end Server

end RubyIndex
