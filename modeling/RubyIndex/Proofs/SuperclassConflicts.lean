import Mathlib.Data.List.Induction
import RubyIndex.Lint.Check
import RubyIndex.Proofs.AnsweredNames
import RubyIndex.Proofs.NestedReferences

/-! Superclass conflicts. A declaration is in conflict with the first superclass of its namespace as
soon as it writes another one, while the files are still being added and no name can be looked up.
So two ways of writing one superclass are in conflict. -/
namespace RubyIndex

theorem joinSegments_append {outer inner : List String} (around : outer ≠ [])
    (filled : inner ≠ []) :
    joinSegments (outer ++ inner) = joinSegments outer ++ "::" ++ joinSegments inner := by
  induction inner using List.reverseRecOn with
  | nil => exact absurd rfl filled
  | append_singleton inner last ih =>
    rw [← List.append_assoc, joinSegments_concat (List.append_ne_nil_of_left_ne_nil around inner)]
    by_cases single : inner = []
    · simp [single, joinSegments]
    · rw [ih single, joinSegments_concat single]
      simp only [String.append_assoc]

section References

variable {segments : List String} {name other : String} {depth outer : Nat}

/-- A name that is found inside a scope is found further outside when it is written with the
segments between. -/
theorem referenceAt_split (around : outer ≤ depth) :
    referenceAt segments name depth =
      referenceAt segments (joinSegments ((segments.take depth).drop outer ++ [name])) outer := by
  have split : segments.take depth = segments.take outer ++ (segments.take depth).drop outer := by
    conv_lhs => rw [← List.take_append_drop outer (segments.take depth)]
    rw [List.take_take, Nat.min_eq_left around]
  unfold referenceAt
  conv_lhs => rw [split, List.append_assoc]
  by_cases root : segments.take outer = []
  · rw [root, List.nil_append, List.nil_append]
    exact (referenceAt_zero segments _).symm
  · rw [joinSegments_append root (by simp), joinSegments_concat root]

theorem referenceAt_inj :
    referenceAt segments name depth = referenceAt segments other depth ↔ name = other := by
  unfold referenceAt
  by_cases root : segments.take depth = []
  · simp [root, joinSegments]
  · rw [joinSegments_concat root, joinSegments_concat root, String.append_right_inj]

end References

namespace SymbolTable

variable {t : SymbolTable} {n : Namespace} {segments : List String} {name other long short : String}
  {depth d e : Nat}

/-- What a name written for a namespace means, which is the name at the root if it is not in the
table. -/
def denotes (t : SymbolTable) (n : Namespace) (name : String) : String :=
  (t.resolve? name n.scope).getD (dropRoot name)

/-- Where in a scope a relative name is found: at the innermost depth at which it is declared, and
at the root if it is declared nowhere. -/
structure FoundAt (t : SymbolTable) (segments : List String) (name : String) (depth : Nat) :
    Prop where
  inside : depth ≤ segments.length
  declared : depth = 0 ∨ t.has (referenceAt segments name depth) = true
  innermost : ∀ d, depth < d → d ≤ segments.length → t.has (referenceAt segments name d) = false

theorem denotes_absolute (name : String) : t.denotes n ("::" ++ name) = name := by
  have root : absolute? ("::" ++ name) = some name := absolute?_eq_some_iff.mpr rfl
  by_cases declared : t.has name = true
  · simp [denotes, resolve?, root, declared]
  · simp [denotes, resolve?, dropRoot, root, declared]

theorem exists_foundAt (relative : absolute? name = none) :
    ∃ depth, t.FoundAt (scopeSegments n.scope) name depth ∧
      t.denotes n name = referenceAt (scopeSegments n.scope) name depth := by
  cases found : t.resolve? name n.scope with
  | none =>
    have absent := (resolve?_eq_none_iff relative).mp found
    refine ⟨0, ⟨Nat.zero_le _, .inl rfl, fun d _ inside => absent d inside⟩, ?_⟩
    rw [denotes, found, Option.getD_none, dropRoot, relative, Option.getD_none, referenceAt_zero]
  | some r =>
    obtain ⟨depth, ⟨inside, declared, innermost⟩, eq⟩ := (resolve?_eq_some_iff relative).mp found
    refine ⟨depth, ⟨inside, .inr declared, innermost⟩, ?_⟩
    rw [denotes, found, Option.getD_some, eq]

theorem FoundAt.unique (h : t.FoundAt segments name d) (k : t.FoundAt segments name e) : d = e := by
  rcases Nat.lt_trichotomy d e with before | same | after
  · have declared := k.declared.resolve_left (by omega)
    rw [h.innermost e before k.inside] at declared
    cases declared
  · exact same
  · have declared := h.declared.resolve_left (by omega)
    rw [k.innermost d after h.inside] at declared
    cases declared

theorem FoundAt.denotes_eq (h : t.FoundAt (scopeSegments n.scope) name depth)
    (relative : absolute? name = none) :
    t.denotes n name = referenceAt (scopeSegments n.scope) name depth := by
  obtain ⟨d, found, eq⟩ := exists_foundAt (t := t) (n := n) relative
  rw [eq, found.unique h]

/-- One name writes out what another leaves to the scope: the whole path from the root to where the
shorter one is found, or the segments that lie between the places where the two are found. -/
def WritesOut (t : SymbolTable) (segments : List String) (long short : String) : Prop :=
  absolute? short = none ∧ ∃ depth, t.FoundAt segments short depth ∧
    (long = "::" ++ referenceAt segments short depth ∨
      ∃ outer < depth, absolute? long = none ∧ t.FoundAt segments long outer ∧
        long = joinSegments ((segments.take depth).drop outer ++ [short]))

theorem WritesOut.denotes_eq (h : t.WritesOut (scopeSegments n.scope) long short) :
    t.denotes n long = t.denotes n short := by
  obtain ⟨relative, depth, found, rfl | ⟨outer, around, longRelative, longFound, eq⟩⟩ := h
  · rw [denotes_absolute, found.denotes_eq relative]
  · rw [longFound.denotes_eq longRelative, found.denotes_eq relative,
      referenceAt_split (Nat.le_of_lt around), ← eq]

theorem WritesOut.suffix (h : t.WritesOut segments long short) :
    ("::" ++ short).toList <:+ long.toList := by
  have written {around : List String} (filled : around ≠ []) :
      ("::" ++ short).toList <:+ (joinSegments (around ++ [short])).toList := by
    refine ⟨(joinSegments around).toList, ?_⟩
    rw [joinSegments_concat filled]
    simp
  obtain ⟨-, depth, found, rfl | ⟨outer, around, -, -, rfl⟩⟩ := h
  · by_cases root : segments.take depth = []
    · simp [referenceAt, root, joinSegments]
    · refine (written root).trans ⟨"::".toList, ?_⟩
      rw [referenceAt, String.toList_append]
  · refine written fun none => ?_
    have length := congrArg List.length none
    have inside := found.inside
    simp only [List.length_drop, List.length_take, List.length_nil] at length
    omega

/-- Two names that are found at different depths mean the same only if the one found further
outside writes out the segments between. -/
theorem writesOut_of_denotes_eq (longRelative : absolute? long = none)
    (shortRelative : absolute? short = none)
    (longFound : t.FoundAt (scopeSegments n.scope) long e)
    (shortFound : t.FoundAt (scopeSegments n.scope) short d) (around : e < d)
    (same : t.denotes n long = t.denotes n short) :
    t.WritesOut (scopeSegments n.scope) long short := by
  rw [longFound.denotes_eq longRelative, shortFound.denotes_eq shortRelative,
    referenceAt_split (Nat.le_of_lt around), referenceAt_inj] at same
  exact ⟨shortRelative, d, shortFound, .inr ⟨e, around, longRelative, longFound, same⟩⟩

/-- A name from the root means the same as a relative one exactly if it writes it out. -/
theorem writesOut_of_absolute (relative : absolute? short = none)
    (same : t.denotes n ("::" ++ name) = t.denotes n short) :
    t.WritesOut (scopeSegments n.scope) ("::" ++ name) short := by
  obtain ⟨depth, found, eq⟩ := exists_foundAt (t := t) (n := n) relative
  rw [denotes_absolute, eq] at same
  exact ⟨relative, depth, found, .inl (by rw [same])⟩

/-- Two different names mean the same exactly if one of them writes out the other. -/
theorem denotes_eq_iff (different : name ≠ other) :
    t.denotes n name = t.denotes n other ↔
      t.WritesOut (scopeSegments n.scope) name other ∨
        t.WritesOut (scopeSegments n.scope) other name := by
  constructor
  · intro same
    cases root : absolute? name with
    | some whole =>
      obtain rfl := absolute?_eq_some_iff.mp root
      cases otherRoot : absolute? other with
      | some otherWhole =>
        obtain rfl := absolute?_eq_some_iff.mp otherRoot
        rw [denotes_absolute, denotes_absolute] at same
        exact absurd (by rw [same]) different
      | none => exact .inl (writesOut_of_absolute otherRoot same)
    | none =>
      cases otherRoot : absolute? other with
      | some otherWhole =>
        obtain rfl := absolute?_eq_some_iff.mp otherRoot
        exact .inr (writesOut_of_absolute root same.symm)
      | none =>
        obtain ⟨d, found, eq⟩ := exists_foundAt (t := t) (n := n) root
        obtain ⟨e, otherFound, otherEq⟩ := exists_foundAt (t := t) (n := n) otherRoot
        rcases Nat.lt_trichotomy d e with before | rfl | after
        · exact .inl (writesOut_of_denotes_eq root otherRoot found otherFound before same)
        · rw [eq, otherEq, referenceAt_inj] at same
          exact absurd same different
        · exact .inr (writesOut_of_denotes_eq otherRoot root otherFound found after same.symm)
  · rintro (written | written)
    · exact written.denotes_eq
    · exact written.denotes_eq.symm

end SymbolTable

namespace Lint

def conflictFinding (s : Snapshot) (c : SuperclassConflict) : Finding where
  rule := .superclassConflict
  path := s.relativePath c.path
  line := c.line
  owner := some c.owner
  message := s!"{c.owner} is reopened with superclass \x60{c.superclass}\x60 " ++
    s!"but was declared with \x60{c.existing}\x60"

end Lint

namespace SymbolTable

variable {files : List StubFile} {c : SuperclassConflict}

/-- A conflict is one of a declaration that names another superclass than the first declaration
with one, whose superclass the namespace keeps. -/
theorem origin_of_conflict (h : c ∈ (ofFiles files).conflicts) :
    c.superclass ≠ c.existing ∧
      (∃ before d after, (ofFiles files).declarations c.owner = before ++ d :: after ∧
        d.superclass = some c.superclass ∧
        before.findSome? (·.superclass) = some c.existing ∧ c.path = d.path ∧ c.line = d.line) ∧
      ∃ n, (ofFiles files).find? c.owner = some n ∧ n.superclass = some c.existing := by
  have log := logged_ofFiles files
  rw [log.conflicts, mem_conflictsFrom_iff] at h
  obtain ⟨before, d, after, eq, conflict⟩ := h
  obtain ⟨named, first, different, owner, path, line⟩ := conflictAfter_eq_some_iff.mp conflict
  rw [List.nil_append, ← owner] at first
  have declarations : (ofFiles files).declarations c.owner =
      before.filter (·.qualifiedName == c.owner) ++
        d :: after.filter (·.qualifiedName == c.owner) := by
    rw [SymbolTable.declarations, log.declared, eq, List.filter_append,
      List.filter_cons_of_pos (by simp [owner])]
  refine ⟨different, ⟨_, d, _, declarations, named, first, path, line⟩, ?_⟩
  have superclass := superclass_mergeAll ((ofFiles files).declarations c.owner)
  rw [declarations, List.findSome?_append, first, Option.some_or, ← declarations] at superclass
  obtain ⟨n, merged, existing⟩ := Option.bind_eq_some_iff.mp superclass
  exact ⟨n, by rw [find?_ofFiles, merged], existing⟩

/-- A finding names two superclasses that are written differently: the one that the namespace has
and the one of a later declaration. They are different classes exactly if neither name writes out
the other, and so whenever neither ends in the other. -/
theorem conflict_finding_real_iff (version : Version) (directory : Path) (errors : List FileError)
    {f : Lint.Finding}
    (found : f ∈ Lint.Rule.superclassConflict.check
      (Snapshot.ofFiles version directory files errors)) :
    ∃ c ∈ (ofFiles files).conflicts,
      f = Lint.conflictFinding (Snapshot.ofFiles version directory files errors) c ∧
      ∃ n, (ofFiles files).find? c.owner = some n ∧ n.superclass = some c.existing ∧
      (∃ before d after, (ofFiles files).declarations c.owner = before ++ d :: after ∧
        d.superclass = some c.superclass ∧ before.findSome? (·.superclass) = some c.existing ∧
        c.path = d.path ∧ c.line = d.line) ∧
      c.superclass ≠ c.existing ∧
      ((ofFiles files).denotes n c.superclass ≠ (ofFiles files).denotes n c.existing ↔
        ¬ (ofFiles files).WritesOut (scopeSegments n.scope) c.superclass c.existing ∧
          ¬ (ofFiles files).WritesOut (scopeSegments n.scope) c.existing c.superclass) ∧
      (¬ ("::" ++ c.existing).toList <:+ c.superclass.toList →
        ¬ ("::" ++ c.superclass).toList <:+ c.existing.toList →
        (ofFiles files).denotes n c.superclass ≠ (ofFiles files).denotes n c.existing) := by
  obtain ⟨c, conflict, rfl⟩ := List.mem_map.mp found
  obtain ⟨different, declared, n, owner, existing⟩ := origin_of_conflict conflict
  have real := not_congr (denotes_eq_iff (t := ofFiles files) (n := n) different)
  rw [not_or] at real
  refine ⟨c, conflict, rfl, n, owner, existing, declared, different, real, ?_⟩
  intro longer shorter
  exact real.mpr ⟨fun written => longer written.suffix, fun written => shorter written.suffix⟩

def squareText : String :=
  "class Shape; end\nclass Base; end\nclass Square < Shape; end\nclass Square < Base; end"

def square : Namespace :=
  { kind := .klass, name := "Square", qualifiedName := "Square", superclass := some "Shape",
    path := "square.rb", line := 3 }

def squareFile : StubFile where
  path := "square.rb"
  namespaces :=
    [{ kind := .klass, name := "Shape", qualifiedName := "Shape", path := "square.rb", line := 1 },
     { kind := .klass, name := "Base", qualifiedName := "Base", path := "square.rb", line := 2 },
     square,
     { square with superclass := some "Base", line := 4 }]

def squareSnapshot : Snapshot := .ofFiles ⟨3, 3⟩ { parts := ["stubs"] } [squareFile] []

def squareConflict : SuperclassConflict := ⟨"Square", "Base", "Shape", "square.rb", 4⟩

theorem square_conflict_real :
    (StubFile.parse squareText "square.rb").toOption = some squareFile ∧
      Lint.conflictFinding squareSnapshot squareConflict ∈
        Lint.Rule.superclassConflict.check squareSnapshot ∧
      (ofFiles [squareFile]).denotes square "Base" ≠
        (ofFiles [squareFile]).denotes square "Shape" := by
  have conflicts : (ofFiles [squareFile]).conflicts = [squareConflict] := by decide
  have found : Lint.conflictFinding squareSnapshot squareConflict ∈
      Lint.Rule.superclassConflict.check squareSnapshot :=
    List.mem_map.mpr ⟨squareConflict, by simp [squareSnapshot, Snapshot.ofFiles, conflicts], rfl⟩
  obtain ⟨c, conflict, -, n, owner, -, -, -, -, real⟩ :=
    conflict_finding_real_iff ⟨3, 3⟩ { parts := ["stubs"] } [] found
  rw [conflicts, List.mem_singleton] at conflict
  subst conflict
  have listed : (ofFiles [squareFile]).find? "Square" = some square := by decide
  obtain rfl : square = n := Option.some.inj (listed.symm.trans owner)
  exact ⟨by decide, found, real (by decide) (by decide)⟩

def dateText : String := "class Date; end\nclass DateTime < Date; end\nclass DateTime < ::Date; end"

def dateTime : Namespace :=
  { kind := .klass, name := "DateTime", qualifiedName := "DateTime", superclass := some "Date",
    path := "date.rb", line := 2 }

def dateFile : StubFile where
  path := "date.rb"
  namespaces :=
    [{ kind := .klass, name := "Date", qualifiedName := "Date", path := "date.rb", line := 1 },
     dateTime,
     { dateTime with superclass := some "::Date", line := 3 }]

def dateSnapshot : Snapshot := .ofFiles ⟨3, 3⟩ { parts := ["stubs"] } [dateFile] []

/-- There is a finding about the two names of the one class. -/
theorem same_superclass_reported :
    (StubFile.parse dateText "date.rb").toOption = some dateFile ∧
      Lint.Rule.superclassConflict.check dateSnapshot =
        [Lint.conflictFinding dateSnapshot ⟨"DateTime", "::Date", "Date", "date.rb", 3⟩] ∧
      (ofFiles [dateFile]).find? "DateTime" = some dateTime ∧
      (ofFiles [dateFile]).resolve? "::Date" dateTime.scope = some "Date" ∧
      (ofFiles [dateFile]).resolve? "Date" dateTime.scope = some "Date" := by
  have conflicts :
      dateSnapshot.table.conflicts = [⟨"DateTime", "::Date", "Date", "date.rb", 3⟩] := by
    decide
  refine ⟨by decide, ?_, by decide, by decide, by decide⟩
  change dateSnapshot.table.conflicts.map (Lint.conflictFinding dateSnapshot) = _
  rw [conflicts, List.map_singleton]

end SymbolTable

end RubyIndex
