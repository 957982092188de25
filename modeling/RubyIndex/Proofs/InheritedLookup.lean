import RubyIndex.Proofs.AncestorWalk
import RubyIndex.Proofs.CompletionLookup

/-! Inheritance only adds. The lookup chain of a class holds the chain of its superclass, and the
ancestors of each module that it mixes in, although the walks start at different names and each cuts
cycles where it meets them. -/
namespace RubyIndex

namespace SymbolTable

variable {t : SymbolTable} {name next m : String} {e : LookupEntry} {visited : List String}
  {entries more : List LookupEntry} {receiver : Receiver}

theorem mem_addEntries : e ∈ addEntries entries more ↔ e ∈ entries ∨ e ∈ more := by
  induction more generalizing entries with
  | nil => simp [addEntries]
  | cons a more ih =>
    rw [addEntries, List.foldl_cons, ← addEntries, ih]
    by_cases listed : entries.contains a
    · have here : a ∈ entries := by simpa using listed
      rw [if_pos listed, List.mem_cons]
      constructor
      · rintro (h | h)
        · exact Or.inl h
        · exact Or.inr (Or.inr h)
      · rintro (h | rfl | h)
        · exact Or.inl h
        · exact Or.inl here
        · exact Or.inr h
    · rw [if_neg listed]
      simp [or_assoc]

def Inherits (t : SymbolTable) (name next : String) : Prop :=
  ∃ n, t.find? name = some n ∧ t.superclassOf n = some next

/-- What a name on the chain of superclasses contributes to calls on the class itself: an entry for
its singleton methods, and entries for the instance methods of the ancestors of each module that it
extends, of the last one first. -/
def singletonEntries (t : SymbolTable) (name : String) : List LookupEntry :=
  match t.find? name with
  | none => [⟨name, .singleton⟩]
  | some n =>
    ⟨name, .singleton⟩ :: n.extended.reverse.flatMap fun written =>
      (t.ancestors (t.resolveMixin n written)).map fun ancestor => ⟨ancestor, .inst⟩

theorem singletonEntries_found {n : Namespace} (found : t.find? name = some n) :
    t.singletonEntries name = ⟨name, .singleton⟩ :: t.extensionEntries n := by
  simp only [singletonEntries, found, extensionEntries, List.map_flatMap]

theorem singletonEntries_absent (absent : t.find? name = none) :
    t.singletonEntries name = [⟨name, .singleton⟩] := by
  simp only [singletonEntries, absent]

theorem mem_singletonEntries {n : Namespace} (found : t.find? name = some n) :
    e ∈ t.singletonEntries name ↔
      e ∈ [(⟨name, .singleton⟩ : LookupEntry)] ∨ e ∈ t.extensionEntries n := by
  rw [singletonEntries_found found, List.mem_cons, List.mem_singleton]

theorem mem_singletonEntries_absent (absent : t.find? name = none) :
    e ∈ t.singletonEntries name ↔ e ∈ [(⟨name, .singleton⟩ : LookupEntry)] := by
  rw [singletonEntries_absent absent]

theorem mem_of_mem_walkSingletons (h : e ∈ t.walkSingletons visited entries name) :
    e ∈ entries ∨ ∃ x, Relation.ReflTransGen t.Inherits name x ∧ e ∈ t.singletonEntries x := by
  fun_induction walkSingletons t visited entries name with
  | case1 => exact Or.inl h
  | case2 visited entries name _ first absent =>
    rcases mem_addEntries.mp h with h | h
    · exact Or.inl h
    · exact Or.inr ⟨name, .refl, (mem_singletonEntries_absent absent).mpr h⟩
  | case3 visited entries name _ first n found second last =>
    rw [mem_addEntries, mem_addEntries, or_assoc, ← mem_singletonEntries found] at h
    exact h.imp_right fun own => ⟨name, .refl, own⟩
  | case4 visited entries name _ first n found second superclass link ih =>
    rcases ih h with h | ⟨x, reach, own⟩
    · rw [mem_addEntries, mem_addEntries, or_assoc, ← mem_singletonEntries found] at h
      exact h.imp_right fun own => ⟨name, .refl, own⟩
    · exact Or.inr ⟨x, .head ⟨n, found, link⟩ reach, own⟩

/-- The invariant of the walk: what the names before contribute is listed, and each of them leads to
one of them or to the name that the walk is at. -/
structure Covered (t : SymbolTable) (visited : List String) (entries : List LookupEntry)
    (name : String) : Prop where
  listed : ∀ x ∈ visited, ∀ e ∈ t.singletonEntries x, e ∈ entries
  closed : ∀ x ∈ visited, ∀ y, t.Inherits x y → y ∈ visited ∨ y = name

theorem Covered.enter (h : t.Covered visited entries name)
    (own : ∀ e, e ∈ entries ∨ e ∈ t.singletonEntries name → e ∈ more)
    (only : ∀ y, t.Inherits name y → y = next) : t.Covered (name :: visited) more next where
  listed x hx e he := by
    rcases List.mem_cons.mp hx with rfl | hx
    · exact own e (Or.inr he)
    · exact own e (Or.inl (h.listed x hx e he))
  closed x hx y link := by
    rcases List.mem_cons.mp hx with rfl | hx
    · exact Or.inr (only y link)
    · rcases h.closed x hx y link with old | rfl
      · exact Or.inl (List.mem_cons_of_mem _ old)
      · exact Or.inl List.mem_cons_self

theorem Covered.absent (h : t.Covered visited entries name) (absent : t.find? name = none) :
    t.Covered (name :: visited) (addEntries entries [⟨name, .singleton⟩]) name := by
  apply h.enter
  · intro e he
    rw [mem_singletonEntries_absent absent] at he
    exact mem_addEntries.mpr he
  · rintro y ⟨n, found, -⟩
    simp [absent] at found

theorem Covered.present {n : Namespace} (h : t.Covered visited entries name)
    (found : t.find? name = some n) (only : ∀ y, t.superclassOf n = some y → y = next) :
    t.Covered (name :: visited)
      (addEntries (addEntries entries [⟨name, .singleton⟩]) (t.extensionEntries n)) next := by
  apply h.enter
  · intro e he
    rw [mem_singletonEntries found, ← or_assoc] at he
    exact mem_addEntries.mpr (he.imp_left mem_addEntries.mpr)
  · rintro y ⟨m, hm, superclass⟩
    obtain rfl : m = n := Option.some.inj (hm.symm.trans found)
    exact only y superclass

/-- The walk ends where the names that it has come through lead to no other name. -/
theorem exists_covered_walkSingletons (h : t.Covered visited entries name) :
    ∃ final last, name :: visited ⊆ final ∧ last ∈ final ∧
      t.Covered final (t.walkSingletons visited entries name) last := by
  fun_induction walkSingletons t visited entries name with
  | case1 visited entries name seen =>
    have seen : name ∈ visited := by simpa using seen
    exact ⟨visited, name, List.cons_subset.mpr ⟨seen, List.Subset.refl _⟩, seen, h⟩
  | case2 visited entries name _ first absent =>
    exact ⟨name :: visited, name, List.Subset.refl _, List.mem_cons_self, h.absent absent⟩
  | case3 visited entries name _ first n found second last =>
    have only : ∀ y, t.superclassOf n = some y → y = name := by simp [last]
    exact ⟨name :: visited, name, List.Subset.refl _, List.mem_cons_self, h.present found only⟩
  | case4 visited entries name _ first n found second superclass link ih =>
    have only : ∀ y, t.superclassOf n = some y → y = superclass := fun y hy =>
      Option.some.inj (hy.symm.trans link)
    obtain ⟨final, last, entered, hlast, covered⟩ := ih (h.present found only)
    exact ⟨final, last, (List.cons_subset.mp entered).2, hlast, covered⟩

theorem mem_walkSingletons_iff : e ∈ t.walkSingletons [] [] name ↔
    ∃ x, Relation.ReflTransGen t.Inherits name x ∧ e ∈ t.singletonEntries x := by
  constructor
  · intro h
    exact (mem_of_mem_walkSingletons h).resolve_left List.not_mem_nil
  · rintro ⟨x, reach, own⟩
    have start : t.Covered [] [] name := ⟨by simp, by simp⟩
    obtain ⟨final, last, entered, hlast, covered⟩ := exists_covered_walkSingletons start
    have reached : x ∈ final := by
      clear own
      induction reach with
      | refl => exact entered List.mem_cons_self
      | tail _ link ih =>
        rcases covered.closed _ ih _ link with old | rfl
        · exact old
        · exact hlast
    exact covered.listed x reached e own

theorem mem_singletonAncestors_iff : e ∈ t.singletonAncestors name ↔
    (∃ x, Relation.ReflTransGen t.Inherits (dropRoot name) x ∧ e ∈ t.singletonEntries x) ∨
      e ∈ (t.ancestors (t.metaclass (dropRoot name))).map (⟨·, .inst⟩) := by
  rw [singletonAncestors, mem_addEntries, mem_walkSingletons_iff]

theorem isClass_of_superclassOf {n : Namespace} (h : t.superclassOf n = some next) :
    n.isClass = true := by
  unfold superclassOf at h
  by_contra other
  simp [other] at h

theorem metaclass_of_class {n : Namespace} (found : t.get? name = some n)
    (isClass : n.isClass = true) : t.metaclass (dropRoot name) = "Class" := by
  rw [get?] at found
  simp [metaclass, found, isClass]

theorem ancestors_subset {other : String} (link : t.Links (dropRoot name) (dropRoot other)) :
    t.ancestors other ⊆ t.ancestors name := by
  intro a ha
  exact mem_walk_iff.mpr (.head link (mem_walk_iff.mp ha))

theorem isSome_resolveMethod? {other : String}
    (chain : t.lookupChain other receiver ⊆ t.lookupChain name receiver)
    (h : (t.resolveMethod? other m receiver).isSome = true) :
    (t.resolveMethod? name m receiver).isSome = true := by
  rw [resolveMethod?_isSome_iff] at h ⊢
  obtain ⟨x, hx, answers⟩ := h
  obtain ⟨e, he, hx⟩ := List.mem_flatMap.mp hx
  exact ⟨x, List.mem_flatMap.mpr ⟨e, chain he, hx⟩, answers⟩

/-- What is found on its superclass is found on a class too, and so is what is found for instances
on a module that it includes or prepends. The three names are given as users give them, with or
without a leading `::`. -/
theorem inheritance_only_adds {c : Namespace} {C : String} (found : t.get? C = some c) :
    (∀ p P, t.get? P = some p → p.isClass = true → t.superclassOf c = some p.qualifiedName →
      t.ancestors P ⊆ t.ancestors C ∧
        t.singletonAncestors P ⊆ t.singletonAncestors C ∧
        ∀ receiver m, (t.resolveMethod? P m receiver).isSome = true →
          (t.resolveMethod? C m receiver).isSome = true) ∧
      ∀ written, written ∈ c.included ∨ written ∈ c.prepended →
        ∀ n M, t.get? M = some n → t.resolveMixin c written = n.qualifiedName →
          t.ancestors M ⊆ t.ancestors C ∧
            ∀ m, (t.resolveMethod? M m .inst).isSome = true →
              (t.resolveMethod? C m .inst).isSome = true := by
  have own : t.find? (dropRoot C) = some c := found
  constructor
  · intro p P hp isClass superclass
    have name : p.qualifiedName = dropRoot P := qualifiedName_of_find? hp
    rw [name] at superclass
    have instances : t.ancestors P ⊆ t.ancestors C :=
      ancestors_subset (links_superclass own superclass)
    have singletons : t.singletonAncestors P ⊆ t.singletonAncestors C := by
      intro e he
      rw [mem_singletonAncestors_iff, metaclass_of_class hp isClass] at he
      rw [mem_singletonAncestors_iff, metaclass_of_class found (isClass_of_superclassOf superclass)]
      refine he.imp_left ?_
      rintro ⟨x, reach, entry⟩
      exact ⟨x, .head ⟨c, own, superclass⟩ reach, entry⟩
    refine ⟨instances, singletons, ?_⟩
    intro receiver m
    cases receiver with
    | inst => exact isSome_resolveMethod? (List.map_subset _ instances)
    | singleton => exact isSome_resolveMethod? singletons
  · intro written mixed n M hn resolved
    have name : n.qualifiedName = dropRoot M := qualifiedName_of_find? hn
    rw [name] at resolved
    have link : t.Links (dropRoot C) (dropRoot M) := by
      rw [← resolved]
      exact mixed.elim (links_included own) (links_prepended own)
    have instances : t.ancestors M ⊆ t.ancestors C := ancestors_subset link
    exact ⟨instances, fun m => isSome_resolveMethod? (List.map_subset _ instances)⟩

def tangledShape : Namespace :=
  { kind := .klass, name := "Shape", qualifiedName := "Shape", superclass := some "Circle",
    extended := ["Paint"], path := "shape.rb",
    methods := [{ name := "area" }, { name := "unit", receiver := .singleton }] }

def tangledCircle : Namespace :=
  { kind := .klass, name := "Circle", qualifiedName := "Circle", superclass := some "Shape",
    included := ["Draw"], path := "shape.rb" }

def tangledDraw : Namespace :=
  { kind := .modul, name := "Draw", qualifiedName := "Draw", prepended := ["Paint"],
    path := "shape.rb" }

def tangledPaint : Namespace :=
  { kind := .modul, name := "Paint", qualifiedName := "Paint", included := ["Draw"],
    path := "shape.rb", methods := [{ name := "paint" }] }

def tangled : SymbolTable :=
  ofFiles [{ path := "shape.rb",
             namespaces := [tangledShape, tangledCircle, tangledDraw, tangledPaint] }]

theorem tangled_inherits :
    tangled.ancestors "Shape" ⊆ tangled.ancestors "::Circle" ∧
      tangled.singletonAncestors "Shape" ⊆ tangled.singletonAncestors "::Circle" ∧
      (tangled.resolveMethod? "::Circle" "unit" .singleton).isSome = true ∧
      (tangled.resolveMethod? "::Circle" "area" .inst).isSome = true ∧
      (tangled.resolveMethod? "::Circle" "paint" .inst).isSome = true := by
  have circle : tangled.get? "::Circle" = some tangledCircle := by cbv
  have shape : tangled.get? "Shape" = some tangledShape := by cbv
  have draw : tangled.get? "Draw" = some tangledDraw := by cbv
  obtain ⟨superclasses, mixins⟩ := inheritance_only_adds circle
  obtain ⟨instances, singletons, answered⟩ := superclasses _ _ shape rfl (by cbv)
  obtain ⟨-, mixed⟩ := mixins "Draw" (Or.inl List.mem_cons_self) _ _ draw (by cbv)
  exact ⟨instances, singletons, answered .singleton "unit" (by cbv), answered .inst "area" (by cbv),
    mixed "paint" (by cbv)⟩

end SymbolTable

end RubyIndex
