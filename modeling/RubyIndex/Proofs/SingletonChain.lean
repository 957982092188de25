import Mathlib.Data.List.Chain
import RubyIndex.Proofs.InheritedLookup

/-! The lookup order for calls on a class or module itself. The walk along the superclasses lists
the classes of the chain in order, each with what it extends, also where the chain leaves the table
or comes back to a class that it has passed. -/
namespace RubyIndex

namespace SymbolTable

variable {t : SymbolTable} {seen : List String} {name next : String} {chain other : List String}
  {entries more : List LookupEntry}

section Entries

theorem addEntries_append (entries first second : List LookupEntry) :
    addEntries entries (first ++ second) = addEntries (addEntries entries first) second :=
  List.foldl_append

theorem addEntries_concat (entries more : List LookupEntry) (e : LookupEntry) :
    addEntries entries (more ++ [e]) =
      if e ∈ entries ++ more then addEntries entries more else addEntries entries more ++ [e] := by
  have listed : (addEntries entries more).contains e = true ↔ e ∈ entries ++ more := by
    rw [List.contains_iff_mem, mem_addEntries, List.mem_append]
  rw [addEntries_append]
  change ite _ _ _ = _
  simp only [listed]

theorem addEntries_nil_eq (more : List LookupEntry) : addEntries [] more = more.eraseDups := by
  induction more using List.reverseRecOn with
  | nil => rfl
  | append_singleton more e ih =>
    rw [addEntries_concat, ih, List.eraseDups_append, List.nil_append]
    by_cases listed : e ∈ more <;> simp [List.removeAll, listed, List.eraseDups_cons]

theorem nodup_addEntries (distinct : entries.Nodup) : (addEntries entries more).Nodup := by
  induction more using List.reverseRecOn with
  | nil => exact distinct
  | append_singleton more e ih =>
    rw [addEntries_concat]
    split
    · exact ih
    · next fresh =>
      have unlisted : e ∉ addEntries entries more := by
        rwa [mem_addEntries, ← List.mem_append]
      exact List.nodup_append.mpr ⟨ih, List.nodup_singleton e, by grind⟩

theorem filter_addEntries (p : LookupEntry → Bool) (entries more : List LookupEntry) :
    (addEntries entries more).filter p = addEntries (entries.filter p) (more.filter p) := by
  induction more using List.reverseRecOn with
  | nil => rfl
  | append_singleton more e ih =>
    rw [addEntries_concat, List.filter_append]
    by_cases keeps : p e = true
    · have same : e ∈ entries.filter p ++ more.filter p ↔ e ∈ entries ++ more := by
        simp [keeps]
      rw [List.filter_cons_of_pos keeps, List.filter_nil, addEntries_concat, ← ih]
      simp only [same]
      split
      · rfl
      · rw [List.filter_append, List.filter_cons_of_pos keeps, List.filter_nil]
    · rw [List.filter_cons_of_neg keeps, List.filter_nil, List.append_nil, ← ih]
      split
      · rfl
      · rw [List.filter_append, List.filter_cons_of_neg keeps, List.filter_nil, List.append_nil]

theorem addEntries_nil_of_nodup (distinct : more.Nodup) : addEntries [] more = more := by
  induction more using List.reverseRecOn with
  | nil => rfl
  | append_singleton more e ih =>
    obtain ⟨before, -, apart⟩ := List.nodup_append.mp distinct
    have fresh : e ∉ [] ++ more := fun listed => apart e listed e List.mem_cons_self rfl
    rw [addEntries_concat, if_neg fresh, ih before]

end Entries

section Chain

/-- A name, its superclass, the superclass of that one and so on. The chain ends before the first
name that stands in it already or has been seen, and where a name has no superclass. A name that is
not in the table has none. -/
structure SuperclassChain (t : SymbolTable) (seen : List String) (name : String)
    (chain : List String) : Prop where
  starts : chain.head? = if name ∈ seen then none else some name
  linked : chain.IsChain t.Inherits
  distinct : chain.Nodup
  fresh : ∀ c ∈ chain, c ∉ seen
  complete : ∀ last ∈ chain.getLast?, ∀ next, t.Inherits last next → next ∈ chain ∨ next ∈ seen

theorem Inherits.unique {x y : String} (first : t.Inherits name x) (second : t.Inherits name y) :
    x = y := by
  obtain ⟨n, found, superclass⟩ := first
  obtain ⟨m, again, same⟩ := second
  obtain rfl : n = m := Option.some.inj (found.symm.trans again)
  exact Option.some.inj (superclass.symm.trans same)

namespace SuperclassChain

theorem eq_nil (h : t.SuperclassChain seen name chain) (old : name ∈ seen) : chain = [] := by
  have starts := h.starts
  rwa [if_pos old, List.head?_eq_none_iff] at starts

theorem eq_cons (h : t.SuperclassChain seen name chain) (new : name ∉ seen) :
    ∃ rest, chain = name :: rest := by
  have starts := h.starts
  rw [if_neg new, List.head?_eq_some_iff] at starts
  exact starts

theorem nil (old : name ∈ seen) : t.SuperclassChain seen name [] where
  starts := by rw [if_pos old, List.head?_nil]
  linked := .nil
  distinct := List.nodup_nil
  fresh := List.forall_mem_nil _
  complete := by simp

theorem last (new : name ∉ seen) (ends : ∀ next, ¬ t.Inherits name next) :
    t.SuperclassChain seen name [name] where
  starts := by rw [if_neg new, List.head?_cons]
  linked := .singleton name
  distinct := List.nodup_singleton name
  fresh := List.forall_mem_singleton.mpr new
  complete := by
    intro last hlast next link
    obtain rfl : name = last := by simpa using hlast
    exact absurd link (ends next)

/-- A class stands before the chain of its superclass in which it is not met again. -/
theorem cons (new : name ∉ seen) (link : t.Inherits name next)
    (h : t.SuperclassChain (name :: seen) next chain) :
    t.SuperclassChain seen name (name :: chain) where
  starts := by rw [if_neg new, List.head?_cons]
  linked := by
    refine List.isChain_cons.mpr ⟨?_, h.linked⟩
    intro first hfirst
    rw [h.starts] at hfirst
    split at hfirst
    · cases hfirst
    · obtain rfl : next = first := by simpa using hfirst
      exact link
  distinct := List.nodup_cons.mpr ⟨fun again => h.fresh name again List.mem_cons_self, h.distinct⟩
  fresh := List.forall_mem_cons.mpr
    ⟨new, fun c hc old => h.fresh c hc (List.mem_cons_of_mem _ old)⟩
  complete := by
    intro last hlast further onward
    cases chain with
    | nil =>
      -- The superclass has been met, so the chain ends with the class.
      obtain rfl : name = last := by simpa using hlast
      obtain rfl := link.unique onward
      have starts := h.starts
      split at starts
      · next met =>
        rcases List.mem_cons.mp met with rfl | old
        · exact .inl List.mem_cons_self
        · exact .inr old
      · cases starts
    | cons first rest =>
      rw [List.getLast?_cons_cons] at hlast
      rcases h.complete last hlast further onward with listed | met
      · exact .inl (List.mem_cons_of_mem _ listed)
      · rcases List.mem_cons.mp met with rfl | old
        · exact .inl List.mem_cons_self
        · exact .inr old

/-- A chain that goes on goes on with the chain of the superclass. -/
theorem tail {rest : List String} (h : t.SuperclassChain seen name (name :: rest))
    (link : t.Inherits name next) : t.SuperclassChain (name :: seen) next rest := by
  obtain ⟨alone, distinct⟩ := List.nodup_cons.mp h.distinct
  obtain ⟨new, fresh⟩ := List.forall_mem_cons.mp h.fresh
  have unmet : ∀ c ∈ rest, c ∉ name :: seen := by
    intro c hc met
    rcases List.mem_cons.mp met with rfl | old
    · exact alone hc
    · exact fresh c hc old
  obtain ⟨first, linked⟩ := List.isChain_cons.mp h.linked
  have complete := h.complete
  cases rest with
  | nil =>
    have met : next ∈ name :: seen := by simpa using complete name rfl next link
    exact nil met
  | cons second rest =>
    obtain rfl := link.unique (first second rfl)
    refine ⟨?_, linked, distinct, unmet, ?_⟩
    · rw [if_neg (unmet next List.mem_cons_self), List.head?_cons]
    · intro last hlast further onward
      rw [← List.getLast?_cons_cons (a := name)] at hlast
      have listed := complete last hlast further onward
      simp only [List.mem_cons] at listed ⊢
      grind

theorem unique (h : t.SuperclassChain seen name chain) (h' : t.SuperclassChain seen name other) :
    other = chain := by
  induction chain generalizing seen name other with
  | nil =>
    by_cases old : name ∈ seen
    · exact h'.eq_nil old
    · obtain ⟨rest, none⟩ := h.eq_cons old
      cases none
  | cons c rest ih =>
    by_cases old : name ∈ seen
    · cases h.eq_nil old
    · obtain ⟨_, eq⟩ := h.eq_cons old
      obtain ⟨rfl, rfl⟩ := List.cons.inj eq
      obtain ⟨rest', rfl⟩ := h'.eq_cons old
      congr 1
      by_cases ends : ∃ next, t.Inherits c next
      · obtain ⟨next, link⟩ := ends
        exact ih (h.tail link) (h'.tail link)
      · have alone {more : List String} (whole : t.SuperclassChain seen c (c :: more)) :
            more = [] := by
          cases more with
          | nil => rfl
          | cons next more =>
            exact absurd ⟨next, (List.isChain_cons_cons.mp whole.linked).1⟩ ends
        rw [alone h, alone h']

end SuperclassChain

end Chain

/-- The walk adds what the classes of the chain contribute, class by class. -/
theorem walkSingletons_eq_chain (t : SymbolTable) (seen : List String)
    (entries : List LookupEntry) (name : String) :
    ∃ chain, t.SuperclassChain seen name chain ∧
      t.walkSingletons seen entries name =
        addEntries entries (chain.flatMap t.singletonEntries) := by
  fun_induction walkSingletons t seen entries name with
  | case1 seen entries name old =>
    exact ⟨[], .nil (by simpa using old), rfl⟩
  | case2 seen entries name new first absent =>
    refine ⟨[name], .last (by simpa using new) ?_, ?_⟩
    · rintro next ⟨n, found, -⟩
      simp [absent] at found
    · rw [List.flatMap_singleton, singletonEntries_absent absent]
  | case3 seen entries name new first n found second ends =>
    refine ⟨[name], .last (by simpa using new) ?_, ?_⟩
    · rintro next ⟨m, again, superclass⟩
      obtain rfl : m = n := Option.some.inj (again.symm.trans found)
      simp [ends] at superclass
    · rw [List.flatMap_singleton, singletonEntries_found found, ← List.singleton_append,
        addEntries_append]
  | case4 seen entries name new first n found second superclass link ih =>
    obtain ⟨chain, onward, walked⟩ := ih
    refine ⟨name :: chain, .cons (by simpa using new) ⟨n, found, link⟩ onward, ?_⟩
    rw [walked, List.flatMap_cons, singletonEntries_found found, ← List.singleton_append,
      addEntries_append, addEntries_append]

/-- Of what a class contributes, only its own entry is one for singleton methods. -/
theorem filter_singletonEntries (t : SymbolTable) (name : String) :
    (t.singletonEntries name).filter (·.receiver == .singleton) = [⟨name, .singleton⟩] := by
  cases found : t.find? name with
  | none =>
    rw [singletonEntries_absent found]
    rfl
  | some n =>
    rw [singletonEntries_found found, List.filter_cons_of_pos (by rfl), extensionEntries,
      List.filter_map]
    simp [Function.comp_def]

theorem metaclass_eq (t : SymbolTable) (name : String) :
    t.metaclass name = if (t.find? name).any (·.kind == .modul) then "Module" else "Class" := by
  unfold metaclass Namespace.isClass
  cases t.find? name with
  | none => rfl
  | some n => cases h : n.kind <;> simp [h]

theorem singletonAncestors_eq_chain (t : SymbolTable) (name : String) :
    ∃ chain, t.SuperclassChain [] (dropRoot name) chain ∧
      t.singletonAncestors name = addEntries [] (chain.flatMap t.singletonEntries ++
        (t.ancestors (t.metaclass (dropRoot name))).map (LookupEntry.mk · .inst)) := by
  obtain ⟨chain, follows, walked⟩ := t.walkSingletons_eq_chain [] [] (dropRoot name)
  refine ⟨chain, follows, ?_⟩
  rw [addEntries_append, ← walked]
  rfl

/-- The lookup order for calls on a class or module itself. There is one chain of superclasses from
it. Each class of the chain contributes an entry for its singleton methods and the ancestors of the
modules that it extends, the latest first. The ancestors of `Class` follow, or of `Module` for a
module. What comes more than once counts where it stands first, and so the entries for singleton
methods are those of the chain in order. -/
theorem singletonAncestors_follow_chain (t : SymbolTable) (name : String) :
    ∃ chain, t.SuperclassChain [] (dropRoot name) chain ∧
      (∀ other, t.SuperclassChain [] (dropRoot name) other → other = chain) ∧
      t.singletonAncestors name =
        (chain.flatMap t.singletonEntries ++
          (t.ancestors (if (t.get? name).any (·.kind == .modul) then "Module" else "Class")).map
            (LookupEntry.mk · .inst)).eraseDups ∧
      (t.singletonAncestors name).Nodup ∧
      (t.singletonAncestors name).filter (·.receiver == .singleton) =
        chain.map (LookupEntry.mk · .singleton) := by
  obtain ⟨chain, follows, whole⟩ := t.singletonAncestors_eq_chain name
  refine ⟨chain, follows, fun other h => follows.unique h, ?_, ?_, ?_⟩
  · rw [whole, addEntries_nil_eq, metaclass_eq]
    rfl
  · rw [whole]
    exact nodup_addEntries List.nodup_nil
  · have singletons : (chain.flatMap t.singletonEntries).filter (·.receiver == .singleton) =
        chain.map (⟨·, .singleton⟩) := by
      rw [List.filter_flatMap]
      simp only [filter_singletonEntries]
      exact List.flatMap_pure_eq_map _ chain
    have instances : ((t.ancestors (t.metaclass (dropRoot name))).map
        (LookupEntry.mk · .inst)).filter (·.receiver == .singleton) = [] := by
      rw [List.filter_map]
      simp [Function.comp_def]
    have distinct : (chain.map (LookupEntry.mk · .singleton)).Nodup :=
      follows.distinct.map fun c d same => congrArg LookupEntry.owner same
    rw [whole, filter_addEntries, List.filter_nil, List.filter_append, singletons, instances,
      List.append_nil, addEntries_nil_of_nodup distinct]

/-- The chain from `Shape` ends at `Circle`, whose superclass is `Shape` again. -/
example : (tangled.singletonAncestors "Shape").map (·.text) =
    ["#<Class:Shape>", "Paint", "Draw", "#<Class:Circle>", "Class"] := by cbv

end SymbolTable

end RubyIndex
