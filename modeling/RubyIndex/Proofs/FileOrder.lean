import Mathlib.Data.List.Perm.Basic
import RubyIndex.Proofs.KeyOrder
import RubyIndex.Proofs.OutlinedTables
import RubyIndex.SymbolTable.Search

/-! Files in another order. The table lists its namespaces, global variables and conflicts in the
order of the files, but looks each of them up by its name, and what it lists for a user it sorts. So
the order of the files shows only where one name is declared more than once. -/
namespace RubyIndex

namespace SymbolTable

/-- Two tables whose entries may be in another order. -/
structure SameEntries (t₁ t₂ : SymbolTable) : Prop where
  namespaces : SameByKey (·.qualifiedName) t₁.namespaces t₂.namespaces
  globals : SameByKey (·.name) t₁.globals t₂.globals
  conflicts : SameByKey (·.owner) t₁.conflicts t₂.conflicts

section Lookup

/-! Looking up a name is all that lookups along the ancestors ask of a table. Both tables have the
outlines of the first one, on which resolution and the lookup chains depend. -/

variable {t₁ t₂ : SymbolTable} (find : t₁.find? = t₂.find?)

include find

theorem outlines_congr {o : SymbolTable} (h : o.Outlines t₁) : o.Outlines t₂ := by
  intro name
  rw [h name, find]

theorem resolve?_congr : t₁.resolve? = t₂.resolve? := by
  obtain ⟨o, h⟩ := exists_outlines t₁
  rw [← h.resolve?_eq, (outlines_congr find h).resolve?_eq]

theorem superclassOf_congr : t₁.superclassOf = t₂.superclassOf := by
  obtain ⟨o, h⟩ := exists_outlines t₁
  funext n
  rw [← h.superclassOf_eq, (outlines_congr find h).superclassOf_eq]

theorem ancestors_congr : t₁.ancestors = t₂.ancestors := by
  obtain ⟨o, h⟩ := exists_outlines t₁
  rw [← h.ancestors_eq, (outlines_congr find h).ancestors_eq]

theorem singletonAncestors_congr : t₁.singletonAncestors = t₂.singletonAncestors := by
  obtain ⟨o, h⟩ := exists_outlines t₁
  funext name
  rw [← h.singletonAncestors_eq, (outlines_congr find h).singletonAncestors_eq]

theorem lookupChain_congr : t₁.lookupChain = t₂.lookupChain := by
  obtain ⟨o, h⟩ := exists_outlines t₁
  rw [← h.lookupChain_eq, (outlines_congr find h).lookupChain_eq]

theorem resolveMethod?_congr : t₁.resolveMethod? = t₂.resolveMethod? := by
  funext name method receiver
  rw [resolveMethod?, resolveMethod?, lookupChain_congr find, find]

theorem availableMethods_congr : t₁.availableMethods = t₂.availableMethods := by
  have entries : t₁.entryMethods = t₂.entryMethods := by
    funext e
    rw [entryMethods, entryMethods, find]
  funext name receiver
  rw [availableMethods, availableMethods, lookupChain_congr find, entries]

theorem completeMembers_congr : t₁.completeMembers = t₂.completeMembers := by
  have constants : t₁.ancestorConstants = t₂.ancestorConstants := by
    funext name
    rw [ancestorConstants, ancestorConstants, ancestors_congr find, find]
  funext name start receiver includePrivate
  rw [completeMembers, completeMembers, availableMethods_congr find, constants]

end Lookup

/-- Two tables that answer alike. Search hits and conflicts may be in another order. -/
structure AnswersAlike (t₁ t₂ : SymbolTable) : Prop where
  get : ∀ name, t₁.get? name = t₂.get? name
  resolve : ∀ name scope, t₁.resolve? name scope = t₂.resolve? name scope
  superclass : ∀ n, t₁.superclassOf n = t₂.superclassOf n
  ancestors : ∀ name, t₁.ancestors name = t₂.ancestors name
  singletonAncestors : ∀ name, t₁.singletonAncestors name = t₂.singletonAncestors name
  resolveMethod : ∀ name method receiver,
    t₁.resolveMethod? name method receiver = t₂.resolveMethod? name method receiver
  findMethods : ∀ name, t₁.findMethods name = t₂.findMethods name
  availableMethods : ∀ name receiver,
    t₁.availableMethods name receiver = t₂.availableMethods name receiver
  completeNamespaces : ∀ start, t₁.completeNamespaces start = t₂.completeNamespaces start
  completeMembers : ∀ name start receiver includePrivate,
    t₁.completeMembers name start receiver includePrivate =
      t₂.completeMembers name start receiver includePrivate
  completeGlobals : ∀ start, t₁.completeGlobals start = t₂.completeGlobals start
  stats : t₁.stats = t₂.stats
  hits : ∀ keywords requireAll,
    (t₁.search keywords requireAll).Perm (t₂.search keywords requireAll)
  conflicts : t₁.conflicts.Perm t₂.conflicts

namespace SameEntries

variable {t₁ t₂ : SymbolTable}

theorem find?_eq (h : t₁.SameEntries t₂) : t₁.find? = t₂.find? := funext h.namespaces.find?_eq

theorem sortedNamespaces_eq (h : t₁.SameEntries t₂) : t₁.sortedNamespaces = t₂.sortedNamespaces :=
  h.namespaces.sortOn_eq

theorem stats_eq (h : t₁.SameEntries t₂) : t₁.stats = t₂.stats := by
  have namespaces := h.namespaces.perm
  have globals := h.globals.perm
  unfold stats
  rw [namespaces.countP_eq, namespaces.countP_eq, (namespaces.flatMap_right _).length_eq,
    (namespaces.flatMap_right _).length_eq, globals.length_eq]

theorem search_perm (h : t₁.SameEntries t₂) (keywords : List String) (requireAll : Bool) :
    (t₁.search keywords requireAll).Perm (t₂.search keywords requireAll) := by
  have symbols : t₁.searchables.Perm t₂.searchables :=
    (h.namespaces.perm.flatMap_right _).append (h.globals.perm.map _)
  have hits := symbols.filterMap (·.hit? (normalKeywords keywords) requireAll)
  exact (List.mergeSort_perm _ _).trans (hits.trans (List.mergeSort_perm _ _).symm)

theorem answersAlike (h : t₁.SameEntries t₂) : t₁.AnswersAlike t₂ := by
  have find := h.find?_eq
  constructor
  case get => intro name; rw [get?, get?, find]
  case resolve => intro name scope; rw [resolve?_congr find]
  case superclass => intro n; rw [superclassOf_congr find]
  case ancestors => intro name; rw [ancestors_congr find]
  case singletonAncestors => intro name; rw [singletonAncestors_congr find]
  case resolveMethod => intro name method receiver; rw [resolveMethod?_congr find]
  case findMethods => intro name; rw [findMethods, findMethods, h.sortedNamespaces_eq]
  case availableMethods => intro name receiver; rw [availableMethods_congr find]
  case completeNamespaces =>
    intro start
    rw [completeNamespaces, completeNamespaces, h.sortedNamespaces_eq, superclassOf_congr find]
  case completeMembers =>
    intro name start receiver includePrivate
    rw [completeMembers_congr find]
  case completeGlobals =>
    intro start
    rw [completeGlobals, completeGlobals, h.globals.sortOn_eq]
  case stats => exact h.stats_eq
  case hits => exact h.search_perm
  case conflicts => exact h.conflicts.perm

end SameEntries

/-- The conflicts of a name are those of its own declarations. -/
theorem filter_conflictsFrom (earlier log : List Namespace) (name : String) :
    (conflictsFrom earlier log).filter (·.owner == name) =
      conflictsFrom (earlier.filter (·.qualifiedName == name))
        (log.filter (·.qualifiedName == name)) := by
  induction log generalizing earlier with
  | nil => rfl
  | cons n rest ih =>
    have owner : ∀ c ∈ (conflictAfter earlier n).toList, c.owner = n.qualifiedName := by
      intro c hc
      obtain ⟨superclass, -, hc⟩ := Option.bind_eq_some_iff.mp (Option.mem_toList.mp hc)
      obtain ⟨existing, -, hc⟩ := Option.bind_eq_some_iff.mp hc
      split at hc
      · cases hc
      · cases hc
        rfl
    rw [conflictsFrom, List.filter_append, ih, List.filter_append]
    by_cases same : n.qualifiedName = name
    · have own : (conflictAfter earlier n).toList.filter (·.owner == name) =
          (conflictAfter earlier n).toList :=
        List.filter_eq_self.mpr fun c hc => by simp [owner c hc, same]
      have known : conflictAfter (earlier.filter (·.qualifiedName == name)) n =
          conflictAfter earlier n := by
        subst same
        simp [conflictAfter, List.filter_filter]
      rw [own, List.filter_cons_of_pos (by simpa using same),
        List.filter_cons_of_pos (by simpa using same), List.filter_nil, conflictsFrom, known]
    · have none : (conflictAfter earlier n).toList.filter (·.owner == name) = [] :=
        List.filter_eq_nil_iff.mpr fun c hc => by simpa [owner c hc] using same
      rw [none, List.filter_cons_of_neg (by simpa using same),
        List.filter_cons_of_neg (by simpa using same), List.filter_nil, List.append_nil,
        List.nil_append]

/-- Two lists of files that have the declarations of each namespace and of each global variable in
the same order. -/
structure SameOrder (files₁ files₂ : List StubFile) : Prop where
  namespaces : SameByKey (·.qualifiedName) (files₁.flatMap (·.namespaces))
    (files₂.flatMap (·.namespaces))
  globals : SameByKey (·.name) (files₁.flatMap (·.globals)) (files₂.flatMap (·.globals))

variable {files₁ files₂ before after : List StubFile} {f g : StubFile}

/-- Neighbouring files change places if they have no name in common. -/
theorem SameOrder.swap
    (namespaces : ∀ n ∈ f.namespaces, ∀ m ∈ g.namespaces, n.qualifiedName ≠ m.qualifiedName)
    (globals : ∀ a ∈ f.globals, ∀ b ∈ g.globals, a.name ≠ b.name) :
    SameOrder (before ++ f :: g :: after) (before ++ g :: f :: after) := by
  constructor
  · simpa only [List.flatMap_append, List.flatMap_cons] using SameByKey.swap namespaces
  · simpa only [List.flatMap_append, List.flatMap_cons] using SameByKey.swap globals

theorem SameOrder.sameEntries (h : SameOrder files₁ files₂) :
    (ofFiles files₁).SameEntries (ofFiles files₂) := by
  have log₁ := logged_ofFiles files₁
  have log₂ := logged_ofFiles files₂
  constructor
  case namespaces =>
    intro name
    have entry₁ := filter_key_eq_toList_find? log₁.distinct name
    have entry₂ := filter_key_eq_toList_find? log₂.distinct name
    rw [entry₁, entry₂]
    change ((ofFiles files₁).find? name).toList = ((ofFiles files₂).find? name).toList
    rw [log₁.found, log₂.found, h.namespaces name]
  case globals =>
    rw [log₁.globals, log₂.globals]
    exact h.globals.keepFirst
  case conflicts =>
    intro name
    rw [log₁.conflicts, log₂.conflicts, filter_conflictsFrom, filter_conflictsFrom,
      h.namespaces name]

/-- The order of the files shows only where one name is declared more than once. Lists of files that
have the declarations of each name in the same order make tables that answer alike. -/
theorem answers_alike_of_sameOrder (same : SameOrder files₁ files₂) :
    (ofFiles files₁).AnswersAlike (ofFiles files₂) :=
  same.sameEntries.answersAlike

def shapeFile : StubFile where
  path := "shape.rb"
  namespaces :=
    [{ kind := .klass, name := "Shape", qualifiedName := "Shape", path := "shape.rb", line := 1,
       methods := [{ name := "draw", line := 2 }] }]

def colorFile : StubFile where
  path := "shape_color.rb"
  namespaces :=
    [{ kind := .klass, name := "Shape", qualifiedName := "Shape", superclass := some "Figure",
       path := "shape_color.rb", line := 1 }]

def toolFile : StubFile where
  path := "tool.rb"
  namespaces :=
    [{ kind := .modul, name := "Tool", qualifiedName := "Tool", path := "tool.rb", line := 1 }]
  globals := [{ name := "$tool", line := 3 }]

theorem unrelated_file_moves :
    ([shapeFile, colorFile, toolFile].Perm [shapeFile, toolFile, colorFile]) ∧
      SameOrder [shapeFile, colorFile, toolFile] [shapeFile, toolFile, colorFile] ∧
      (ofFiles [shapeFile, colorFile, toolFile]).AnswersAlike
        (ofFiles [shapeFile, toolFile, colorFile]) := by
  have same : SameOrder [shapeFile, colorFile, toolFile] [shapeFile, toolFile, colorFile] :=
    @SameOrder.swap [shapeFile] [] colorFile toolFile (by decide) (by decide)
  exact ⟨(List.Perm.swap toolFile colorFile []).cons shapeFile, same,
    answers_alike_of_sameOrder same⟩

end SymbolTable

end RubyIndex
