import RubyIndex.Corpus.Load
/-!
Snapshots that have been loaded, kept for all the clients of corpora together. Of them only the
latest used are kept. What has been loaded is not loaded again for the same client, although its
files may have changed. Failures are not kept, but a failure takes its place while it lasts.
-/

namespace RubyIndex

/-- A user of a corpus. Clients with different numbers share no snapshots. -/
structure Client where
  number : Nat
  corpus : Corpus
  deriving DecidableEq, Repr

/-- Loaded snapshots, each with the number of its client, the latest used first. -/
structure SnapshotCache where
  entries : List (Nat × Snapshot) := []
  deriving DecidableEq, Repr

namespace SnapshotCache

def capacity : Nat := 32

def isFor (client : Nat) (v : Version) (e : Nat × Snapshot) : Bool :=
  e.1 == client && e.2.version == v

def find? (c : SnapshotCache) (client : Nat) (v : Version) : Option Snapshot :=
  (c.entries.find? (isFor client v)).map (·.2)

def keep (c : SnapshotCache) (client : Nat) (s : Snapshot) : SnapshotCache :=
  ⟨((client, s) :: c.entries.filter fun e => !isFor client s.version e).take capacity⟩

/-- Leaves a place for one more snapshot. What has not been used for longest goes first. -/
def makeRoom (c : SnapshotCache) : SnapshotCache := ⟨c.entries.take (capacity - 1)⟩

def load (c : SnapshotCache) (client : Client) (tree : FileTree) (v : Version) :
    Except CorpusError Snapshot × SnapshotCache :=
  match c.find? client.number v with
  | some s => (.ok s, c.keep client.number s)
  | none =>
    match client.corpus.load tree v with
    | .ok s => (.ok s, c.makeRoom.keep client.number s)
    | .error e => (.error e, c.makeRoom)

def snapshot (c : SnapshotCache) (client : Client) (tree : FileTree) (requested : Option String) :
    Except CorpusError Snapshot × SnapshotCache :=
  match client.corpus.resolveVersion tree requested with
  | .ok v => c.load client tree v
  | .error e => (.error e, c)

def loadAll (c : SnapshotCache) (client : Client) (tree : FileTree) :
    List Version → Except CorpusError (List Snapshot) × SnapshotCache
  | [] => (.ok [], c)
  | v :: rest =>
    match c.load client tree v with
    | (.error e, c) => (.error e, c)
    | (.ok s, c) =>
      match c.loadAll client tree rest with
      | (.error e, c) => (.error e, c)
      | (.ok more, c) => (.ok (s :: more), c)

def snapshots (c : SnapshotCache) (client : Client) (tree : FileTree) :
    Except CorpusError (List Snapshot) × SnapshotCache :=
  match client.corpus.availableVersions tree with
  | .ok versions => c.loadAll client tree versions
  | .error e => (.error e, c)

end SnapshotCache

end RubyIndex
