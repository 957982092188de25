import RubyIndex.Proofs.AnsweredNames

/-! Reopening a namespace with an empty body. The merge makes one more pass over all alias
statements of the namespace. A statement whose old name a later statement gave to another method
may then count for that method as well. Nothing else changes. -/
namespace RubyIndex

/-- A declaration without a superclass, documentation and members. -/
structure Namespace.Empty (n : Namespace) : Prop where
  superclass : n.superclass = none
  documentation : n.documentation = none
  bare : n.bare = n

theorem merge_empty {n m : Namespace} (explicit : n.implicit = false) (empty : m.Empty) :
    n.merge m = { n with methods := applyAliases n.methods n.aliases } := by
  rw [← empty.bare, merge_eq]
  simp [Namespace.bare, explicit, empty.superclass, empty.documentation]

/-- Whether no alias statement brings a name that an earlier one has used as its old name. -/
def InOrder (aliases : List Alias) : Prop :=
  aliases.Pairwise fun a b => b.receiver = a.receiver → b.newName ≠ a.oldName

/-- One pass settles statements that stand in order. -/
theorem settled_of_inOrder {n : Namespace} (recorded : n.Recorded) (order : InOrder n.aliases) :
    ∀ a ∈ n.aliases, a.Settled n.methods := by
  intro a ha
  obtain ⟨methods, eq⟩ := recorded
  obtain ⟨before, after, split⟩ := List.mem_iff_append.mp ha
  rw [InOrder, split, List.pairwise_append, List.pairwise_cons] at order
  rw [eq, split]
  exact Alias.settled_applyAliases order.2.1.1 methods before

namespace SymbolTable

theorem find?_ofFiles_concat {files : List StubFile} {f : StubFile} {last : Namespace}
    (declares : f.namespaces = [last]) :
    (ofFiles (files ++ [f])).find? last.qualifiedName =
      some (((ofFiles files).find? last.qualifiedName).elim last (·.merge last)) := by
  rw [(logged_ofFiles _).found, (logged_ofFiles _).found, List.flatMap_append, List.filter_append,
    ← mergeAll_concat]
  simp [declares]

/-- A namespace that is reopened with an empty body changes in its alias lists only. It stays as it
is exactly if each of its alias statements is settled, as they are when they stand in order. -/
theorem reopened_unchanged_iff_settled {files : List StubFile} {f : StubFile} {name : String}
    {n m : Namespace} (found : (ofFiles files).find? name = some n)
    (explicit : n.implicit = false) (reopens : f.namespaces = [m])
    (named : m.qualifiedName = name) (empty : m.Empty) :
    (ofFiles (files ++ [f])).find? name =
        some { n with methods := applyAliases n.methods n.aliases } ∧
      ((ofFiles (files ++ [f])).find? name = some n ↔ ∀ a ∈ n.aliases, a.Settled n.methods) ∧
      ((∀ f ∈ files, f.Parsed) → InOrder n.aliases →
        (ofFiles (files ++ [f])).find? name = some n) := by
  have merged : (ofFiles (files ++ [f])).find? name =
      some { n with methods := applyAliases n.methods n.aliases } := by
    rw [← named, find?_ofFiles_concat reopens, named, found, Option.elim_some,
      merge_empty explicit empty]
  have unchanged : (ofFiles (files ++ [f])).find? name = some n ↔
      ∀ a ∈ n.aliases, a.Settled n.methods := by
    rw [merged, Option.some_inj, ← applyAliases_eq_self_iff]
    constructor
    · intro same
      exact congrArg (·.methods) same
    · intro same
      rw [same]
  refine ⟨merged, unchanged, fun parsed order => unchanged.mpr ?_⟩
  rw [find?_ofFiles] at found
  exact settled_of_inOrder (recorded_mergeAll (read_declarations parsed name) found) order

def chainedText : String :=
  "class Shape\ndef draw; end\nalias paint draw\nalias render paint\nend"

def chained : Namespace where
  kind := .klass
  name := "Shape"
  qualifiedName := "Shape"
  path := "shape.rb"
  line := 1
  methods := [{ name := "draw", line := 2, aliases := ["paint", "render"] }]
  aliases := [⟨"paint", "draw", .inst, 3⟩, ⟨"render", "paint", .inst, 4⟩]

def chainedFile : StubFile := { path := "shape.rb", namespaces := [chained] }

def emptyShape : Namespace :=
  { kind := .klass, name := "Shape", qualifiedName := "Shape", path := "more.rb", line := 1 }

def emptyFile : StubFile := { path := "more.rb", namespaces := [emptyShape] }

theorem chained_aliases_kept :
    (StubFile.parse chainedText "shape.rb").toOption = some chainedFile ∧
      (StubFile.parse "class Shape; end" "more.rb").toOption = some emptyFile ∧
      InOrder chained.aliases ∧
      (ofFiles ([chainedFile] ++ [emptyFile])).find? "Shape" = some chained := by
  have read : (StubFile.parse chainedText "shape.rb").toOption = some chainedFile := by
    decide
  have order : InOrder chained.aliases := by simp [InOrder, chained]
  have found : (ofFiles [chainedFile]).find? "Shape" = some chained := by rfl
  have empty : emptyShape.Empty := ⟨rfl, rfl, rfl⟩
  refine ⟨read, by decide, order, ?_⟩
  refine (reopened_unchanged_iff_settled found rfl rfl rfl empty).2.2 ?_ order
  rintro f hf
  obtain rfl := List.mem_singleton.mp hf
  exact ⟨_, _, toOption_eq_some_iff.mp read⟩

def redefiningText : String :=
  "class Shape\ndef draw; end\ndef paint; end\nalias render paint\nalias paint draw\nend"

def redefined : Namespace where
  kind := .klass
  name := "Shape"
  qualifiedName := "Shape"
  path := "shape.rb"
  line := 1
  methods :=
    [{ name := "draw", line := 2, aliases := ["paint"] },
     { name := "paint", line := 3, aliases := ["render"] }]
  aliases := [⟨"render", "paint", .inst, 4⟩, ⟨"paint", "draw", .inst, 5⟩]

def redefiningFile : StubFile := { path := "shape.rb", namespaces := [redefined] }

/-- The kept alias moves to the other method, although the file that is added has no members. -/
theorem kept_alias_moved_by_reopening :
    (StubFile.parse redefiningText "shape.rb").toOption = some redefiningFile ∧
      (StubFile.parse "class Shape; end" "more.rb").toOption = some emptyFile ∧
      ((ofFiles [redefiningFile]).find? "Shape").bind (·.findMethod? "render" .inst) =
        some { name := "paint", line := 3, aliases := ["render"] } ∧
      ((ofFiles [redefiningFile, emptyFile]).find? "Shape").bind
          (·.findMethod? "render" .inst) =
        some { name := "draw", line := 2, aliases := ["paint", "render"] } := by
  refine ⟨by decide, by decide, by cbv, by cbv⟩

end SymbolTable

end RubyIndex
