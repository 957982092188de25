import RubyIndex.Proofs.AncestorWalk
import RubyIndex.Proofs.DeclarationLog
import RubyIndex.Proofs.FileOutlines

/-! Lookup chains by outlines. Where a lookup goes depends on the names, kinds, superclasses and
mixins of the namespaces alone, so that files with one outline can stand for each other. -/
namespace RubyIndex

theorem Namespace.outline_merge (first later : Namespace) :
    (first.merge later).outline = first.outline.merge later.outline := by
  rw [merge_eq, merge_eq]
  unfold outline
  cases first.implicit <;> cases later.implicit <;> rfl

theorem map_outline_mergeAll (declarations : List Namespace) :
    (mergeAll declarations).map Namespace.outline =
      mergeAll (declarations.map Namespace.outline) := by
  cases declarations with
  | nil => rfl
  | cons first later =>
    refine congrArg some ?_
    rw [List.foldl_map]
    exact (List.foldl_hom Namespace.outline fun first later =>
      (Namespace.outline_merge first later).symm).symm

namespace SymbolTable

section Singletons

variable {t : SymbolTable} {visited : List String} {name : String}

theorem walkSingletons_absent (entries : List LookupEntry) (fresh : ¬ visited.contains name = true)
    (absent : t.find? name = none) :
    t.walkSingletons visited entries name = addEntries entries [⟨name, .singleton⟩] := by
  rw [walkSingletons, dif_neg fresh]
  split
  · rfl
  · next found => simp [absent] at found

theorem walkSingletons_found {n : Namespace} (entries : List LookupEntry)
    (fresh : ¬ visited.contains name = true) (found : t.find? name = some n) :
    t.walkSingletons visited entries name =
      match t.superclassOf n with
      | none => addEntries (addEntries entries [⟨name, .singleton⟩]) (t.extensionEntries n)
      | some superclass => t.walkSingletons (name :: visited)
          (addEntries (addEntries entries [⟨name, .singleton⟩]) (t.extensionEntries n))
          superclass := by
  conv_lhs => rw [walkSingletons, dif_neg fresh]
  split
  · next absent => simp [found] at absent
  · next m again =>
    obtain rfl : m = n := Option.some.inj (again.symm.trans found)
    rfl

end Singletons

def Outlines (o t : SymbolTable) : Prop :=
  ∀ name, o.find? name = (t.find? name).map Namespace.outline

theorem exists_outlines (t : SymbolTable) : ∃ o : SymbolTable, o.Outlines t := by
  refine ⟨{ t with namespaces := t.namespaces.map Namespace.outline }, ?_⟩
  intro name
  rw [find?, List.find?_map]
  rfl

theorem outlines_ofFiles (files : List StubFile) :
    (ofFiles (files.map StubFile.outline)).Outlines (ofFiles files) := by
  intro name
  have log : (files.map StubFile.outline).flatMap (·.namespaces) =
      (files.flatMap (·.namespaces)).map Namespace.outline := by
    rw [List.flatMap_map, List.map_flatMap]
    rfl
  rw [(logged_ofFiles _).found, (logged_ofFiles _).found, map_outline_mergeAll, log,
    List.filter_map]
  rfl

namespace Outlines

variable {o t : SymbolTable} (h : o.Outlines t)

include h

theorem find?_absent {name : String} (absent : t.find? name = none) : o.find? name = none := by
  rw [h name, absent, Option.map_none]

theorem find?_found {name : String} {n : Namespace} (found : t.find? name = some n) :
    o.find? name = some n.outline := by
  rw [h name, found, Option.map_some]

theorem has_eq : o.has = t.has := by
  funext name
  rw [has, has, h name, Option.isSome_map]

theorem resolve?_eq : o.resolve? = t.resolve? := by
  funext name scope
  rw [resolve?, resolve?, h.has_eq]

theorem superclassOf_eq (n : Namespace) : o.superclassOf n.outline = t.superclassOf n := by
  rw [superclassOf, superclassOf, h.resolve?_eq]
  rfl

theorem resolveMixin_eq (n : Namespace) (name : String) :
    o.resolveMixin n.outline name = t.resolveMixin n name := by
  rw [resolveMixin, resolveMixin, h.resolve?_eq]
  rfl

theorem visits_eq (n : Namespace) : o.visits n.outline = t.visits n := by
  simp only [visits, h.resolveMixin_eq, h.superclassOf_eq]
  rfl

theorem walk_eq (visited : List String) (todo : List Visit) :
    o.walk visited todo = t.walk visited todo := by
  fun_induction t.walk visited todo with
  | case1 visited => rw [walk]
  | case2 visited name rest ih => rw [walk, ih]
  | case3 visited name rest seen ih => rw [walk, dif_pos seen, ih]
  | case4 visited name rest fresh absent ih =>
    rw [walk_enter_absent fresh (h.find?_absent absent), ih]
  | case5 visited name rest fresh n found ih =>
    rw [walk_enter_found fresh (h.find?_found found), h.visits_eq, ih]

theorem ancestors_eq : o.ancestors = t.ancestors := funext fun _ => h.walk_eq _ _

theorem extensionEntries_eq (n : Namespace) :
    o.extensionEntries n.outline = t.extensionEntries n := by
  simp only [extensionEntries, h.ancestors_eq, h.resolveMixin_eq]
  rfl

theorem walkSingletons_eq (visited : List String) (entries : List LookupEntry) (name : String) :
    o.walkSingletons visited entries name = t.walkSingletons visited entries name := by
  fun_induction t.walkSingletons visited entries name with
  | case1 visited entries name seen => rw [walkSingletons, dif_pos seen]
  | case2 visited entries name fresh first absent =>
    exact walkSingletons_absent entries fresh (h.find?_absent absent)
  | case3 visited entries name fresh first n found second last =>
    simp only [walkSingletons_found entries fresh (h.find?_found found), h.superclassOf_eq, last,
      second, first, h.extensionEntries_eq]
  | case4 visited entries name fresh first n found second superclass link ih =>
    rw [← ih]
    simp only [walkSingletons_found entries fresh (h.find?_found found), h.superclassOf_eq, link,
      second, first, h.extensionEntries_eq]

theorem metaclass_eq (name : String) : o.metaclass name = t.metaclass name := by
  have kind : (o.find? name).all (·.isClass) = (t.find? name).all (·.isClass) := by
    rw [h name, Option.all_map]
    rfl
  rw [metaclass, metaclass, kind]

theorem singletonAncestors_eq (name : String) :
    o.singletonAncestors name = t.singletonAncestors name := by
  simp only [singletonAncestors, h.walkSingletons_eq, h.ancestors_eq, h.metaclass_eq]

theorem lookupChain_eq : o.lookupChain = t.lookupChain := by
  funext name receiver
  cases receiver with
  | inst => simp only [lookupChain, h.ancestors_eq]
  | singleton => exact h.singletonAncestors_eq name

end Outlines

/-- Files with the same outlines make tables with the same lookup chains. -/
theorem lookupChain_eq_of_outline {files₁ files₂ : List StubFile}
    (same : files₁.map StubFile.outline = files₂.map StubFile.outline) :
    (ofFiles files₁).lookupChain = (ofFiles files₂).lookupChain := by
  rw [← (outlines_ofFiles files₁).lookupChain_eq, same, (outlines_ofFiles files₂).lookupChain_eq]

end SymbolTable

end RubyIndex
