import Mathlib.Logic.Relation
import Mathlib.Data.List.Nodup
import RubyIndex.SymbolTable.Ancestors

/-! The ancestor walk against reachability along prepended modules, included modules and
superclasses. It lists every name that can be reached, each once, on cyclic tables too. -/
namespace RubyIndex

namespace SymbolTable

variable {t : SymbolTable} {visited : List String} {todo : List Visit}

/-- The names that a namespace passes lookups on to. One that is not in the table has none. -/
def successors (t : SymbolTable) (name : String) : List String :=
  match t.find? name with
  | none => []
  | some n =>
    n.prepended.map (t.resolveMixin n) ++ n.included.map (t.resolveMixin n) ++
      (t.superclassOf n).toList

def Links (t : SymbolTable) (name next : String) : Prop := next ∈ t.successors name

instance (t : SymbolTable) (name next : String) : Decidable (t.Links name next) :=
  inferInstanceAs (Decidable (next ∈ t.successors name))

def Reaches (t : SymbolTable) : String → String → Prop := Relation.ReflTransGen t.Links

def AcyclicFrom (t : SymbolTable) (name : String) : Prop :=
  ∀ x, t.Reaches name x → ¬ Relation.TransGen t.Links x x

theorem links_prepended {name m : String} {n : Namespace} (found : t.find? name = some n)
    (hm : m ∈ n.prepended) : t.Links name (t.resolveMixin n m) := by
  simp only [Links, successors, found, List.mem_append, List.mem_map]
  exact Or.inl (Or.inl ⟨m, hm, rfl⟩)

theorem links_included {name m : String} {n : Namespace} (found : t.find? name = some n)
    (hm : m ∈ n.included) : t.Links name (t.resolveMixin n m) := by
  simp only [Links, successors, found, List.mem_append, List.mem_map]
  exact Or.inl (Or.inr ⟨m, hm, rfl⟩)

theorem links_superclass {name s : String} {n : Namespace} (found : t.find? name = some n)
    (hs : t.superclassOf n = some s) : t.Links name s := by
  simp only [Links, successors, found, List.mem_append, Option.mem_toList]
  exact Or.inr hs

theorem not_links_of_absent {name next : String} (absent : t.find? name = none) :
    ¬ t.Links name next := by
  simp [Links, successors, absent]

theorem enter_mem_visits {name next : String} {n : Namespace} (found : t.find? name = some n) :
    .enter next ∈ t.visits n ↔ t.Links name next := by
  simp only [visits, Links, successors, found, List.mem_append, List.mem_cons, List.mem_map,
    List.mem_reverse, Option.mem_toList, Visit.enter.injEq, reduceCtorEq, false_or,
    exists_eq_right]

theorem list_mem_visits {x : String} {n : Namespace} :
    .list x ∈ t.visits n ↔ x = n.qualifiedName := by
  simp [visits]

theorem walk_enter_absent {name : String} (fresh : ¬ visited.contains name = true)
    (absent : t.find? name = none) :
    t.walk visited (.enter name :: todo) = name :: t.walk (name :: visited) todo := by
  rw [walk, dif_neg fresh]
  split
  · rfl
  · next found => simp [absent] at found

theorem walk_enter_found {name : String} {n : Namespace} (fresh : ¬ visited.contains name = true)
    (found : t.find? name = some n) :
    t.walk visited (.enter name :: todo) = t.walk (name :: visited) (t.visits n ++ todo) := by
  rw [walk, dif_neg fresh]
  split
  · next absent => simp [found] at absent
  · next m again => rw [Option.some.inj (again.symm.trans found)]

def Covers (t : SymbolTable) : Visit → String → Prop
  | .list name, x => x = name
  | .enter name, x => t.Reaches name x

theorem walk_covered {x : String} (h : x ∈ t.walk visited todo) : ∃ v ∈ todo, t.Covers v x := by
  fun_induction walk t visited todo with
  | case1 => simp at h
  | case2 visited name rest ih =>
    rcases List.mem_cons.mp h with rfl | h
    · exact ⟨.list x, List.mem_cons_self, rfl⟩
    · obtain ⟨v, hv, hx⟩ := ih h
      exact ⟨v, List.mem_cons_of_mem _ hv, hx⟩
  | case3 visited name rest _ ih =>
    obtain ⟨v, hv, hx⟩ := ih h
    exact ⟨v, List.mem_cons_of_mem _ hv, hx⟩
  | case4 visited name rest _ _ ih =>
    rcases List.mem_cons.mp h with rfl | h
    · exact ⟨.enter x, List.mem_cons_self, .refl⟩
    · obtain ⟨v, hv, hx⟩ := ih h
      exact ⟨v, List.mem_cons_of_mem _ hv, hx⟩
  | case5 visited name rest _ n found ih =>
    obtain ⟨v, hv, hx⟩ := ih h
    rcases List.mem_append.mp hv with hv | hv
    · refine ⟨.enter name, List.mem_cons_self, ?_⟩
      cases v with
      | enter next => exact .head ((enter_mem_visits found).mp hv) hx
      | list y =>
        have hy : y = name := (list_mem_visits.mp hv).trans (qualifiedName_of_find? found)
        have hxy : x = y := hx
        rw [hxy, hy]
        exact .refl
    · exact ⟨v, List.mem_cons_of_mem _ hv, hx⟩

theorem walk_lists {name : String} (h : .list name ∈ todo) : name ∈ t.walk visited todo := by
  fun_induction walk t visited todo with
  | case1 => simp at h
  | case2 visited y rest ih =>
    rcases List.mem_cons.mp h with h | h
    · cases h; exact List.mem_cons_self
    · exact List.mem_cons_of_mem _ (ih h)
  | case3 visited y rest _ ih => exact ih (List.mem_of_ne_of_mem (by simp) h)
  | case4 visited y rest _ _ ih =>
    exact List.mem_cons_of_mem _ (ih (List.mem_of_ne_of_mem (by simp) h))
  | case5 visited y rest _ n _ ih =>
    exact ih (List.mem_append_right _ (List.mem_of_ne_of_mem (by simp) h))

theorem walk_enters {name : String} (h : .enter name ∈ todo) :
    name ∈ visited ∨ name ∈ t.walk visited todo := by
  fun_induction walk t visited todo with
  | case1 => simp at h
  | case2 visited y rest ih =>
    rcases ih (List.mem_of_ne_of_mem (by simp) h) with hv | hw
    · exact Or.inl hv
    · exact Or.inr (List.mem_cons_of_mem _ hw)
  | case3 visited y rest seen ih =>
    rcases List.mem_cons.mp h with h | h
    · cases h; exact Or.inl (by simpa using seen)
    · exact ih h
  | case4 visited y rest _ _ ih =>
    rcases List.mem_cons.mp h with h | h
    · cases h; exact Or.inr List.mem_cons_self
    · rcases ih h with hv | hw
      · rcases List.mem_cons.mp hv with rfl | hv
        · exact Or.inr List.mem_cons_self
        · exact Or.inl hv
      · exact Or.inr (List.mem_cons_of_mem _ hw)
  | case5 visited y rest _ n found ih =>
    have listed : y ∈ t.walk (y :: visited) (t.visits n ++ rest) :=
      walk_lists (List.mem_append_left _ (list_mem_visits.mpr (qualifiedName_of_find? found).symm))
    rcases List.mem_cons.mp h with h | h
    · cases h; exact Or.inr listed
    · rcases ih (List.mem_append_right _ h) with hv | hw
      · rcases List.mem_cons.mp hv with rfl | hv
        · exact Or.inr listed
        · exact Or.inl hv
      · exact Or.inr hw

/-- What the walk lists is closed under links, up to the namespaces entered before. A name whose
listing was left to do is exempt: its successors are left to do as well. -/
theorem walk_closed {name next : String} (hw : name ∈ t.walk visited todo)
    (hl : .list name ∉ todo) (hn : t.Links name next) :
    next ∈ visited ∨ next ∈ t.walk visited todo := by
  fun_induction walk t visited todo with
  | case1 => simp at hw
  | case2 visited y rest ih =>
    obtain ⟨hy, hr⟩ := not_or.mp (fun h => hl (List.mem_cons.mpr h))
    have hw : name ∈ t.walk visited rest :=
      List.mem_of_ne_of_mem (fun e => hy (by rw [e])) hw
    exact (ih hw hr).imp_right (List.mem_cons_of_mem _)
  | case3 visited y rest _ ih => exact ih hw (fun h => hl (List.mem_cons_of_mem _ h))
  | case4 visited y rest _ absent ih =>
    have hw : name ∈ t.walk (y :: visited) rest :=
      List.mem_of_ne_of_mem (fun e => not_links_of_absent absent (e ▸ hn)) hw
    rcases ih hw (fun h => hl (List.mem_cons_of_mem _ h)) with hv | hw
    · rcases List.mem_cons.mp hv with rfl | hv
      · exact Or.inr List.mem_cons_self
      · exact Or.inl hv
    · exact Or.inr (List.mem_cons_of_mem _ hw)
  | case5 visited y rest _ n found ih =>
    have hy := qualifiedName_of_find? found
    have later : next ∈ y :: visited ∨ next ∈ t.walk (y :: visited) (t.visits n ++ rest) := by
      by_cases he : name = y
      · subst he
        exact walk_enters (List.mem_append_left _ ((enter_mem_visits found).mpr hn))
      · refine ih hw (fun h => ?_)
        rcases List.mem_append.mp h with h | h
        · exact he ((list_mem_visits.mp h).trans hy)
        · exact hl (List.mem_cons_of_mem _ h)
    rcases later with hv | hw
    · rcases List.mem_cons.mp hv with rfl | hv
      · exact Or.inr (walk_lists (List.mem_append_left _ (list_mem_visits.mpr hy.symm)))
      · exact Or.inl hv
    · exact Or.inr hw

/-- The walk from a single name lists what can be reached from it. -/
theorem mem_walk_iff {name x : String} : x ∈ t.walk [] [.enter name] ↔ t.Reaches name x := by
  constructor
  · intro h
    obtain ⟨v, hv, hx⟩ := walk_covered h
    rw [List.mem_singleton] at hv
    subst hv
    exact hx
  · intro h
    induction h with
    | refl =>
      have entered : name ∈ [] ∨ name ∈ t.walk [] [.enter name] :=
        walk_enters List.mem_cons_self
      simpa using entered
    | tail _ hn ih => simpa using walk_closed ih (by simp) hn

def pending (todo : List Visit) : List String :=
  todo.filterMap fun
    | .list name => some name
    | .enter _ => none

@[simp] theorem pending_nil : pending [] = [] := rfl

@[simp] theorem pending_list (name : String) (rest : List Visit) :
    pending (.list name :: rest) = name :: pending rest := rfl

@[simp] theorem pending_enter (name : String) (rest : List Visit) :
    pending (.enter name :: rest) = pending rest := rfl

theorem pending_visits_append {name : String} {n : Namespace} (found : t.find? name = some n)
    (rest : List Visit) : pending (t.visits n ++ rest) = name :: pending rest := by
  rw [← qualifiedName_of_find? found]
  simp [pending, visits, List.filterMap_map]

/-- The walk lists nothing twice if the names left to be listed are distinct and were entered. -/
theorem walk_nodup (distinct : (pending todo).Nodup) (entered : ∀ x ∈ pending todo, x ∈ visited) :
    (t.walk visited todo).Nodup ∧
      ∀ x ∈ t.walk visited todo, x ∈ visited → x ∈ pending todo := by
  fun_induction walk t visited todo with
  | case1 => simp
  | case2 visited name rest ih =>
    obtain ⟨hn, hd⟩ := List.nodup_cons.mp distinct
    obtain ⟨nodup, old⟩ := ih hd (fun x hx => entered x (List.mem_cons_of_mem _ hx))
    refine ⟨List.nodup_cons.mpr ⟨fun h => hn (old name h (entered name List.mem_cons_self)), nodup⟩,
      ?_⟩
    intro x hx hv
    rcases List.mem_cons.mp hx with rfl | hx
    · exact List.mem_cons_self
    · exact List.mem_cons_of_mem _ (old x hx hv)
  | case3 visited name rest _ ih => exact ih distinct entered
  | case4 visited name rest fresh _ ih =>
    have hf : name ∉ visited := by simpa using fresh
    obtain ⟨nodup, old⟩ := ih distinct (fun x hx => List.mem_cons_of_mem _ (entered x hx))
    refine ⟨List.nodup_cons.mpr ⟨fun h => hf (entered name (old name h List.mem_cons_self)), nodup⟩,
      ?_⟩
    intro x hx hv
    rcases List.mem_cons.mp hx with rfl | hx
    · exact absurd hv hf
    · exact old x hx (List.mem_cons_of_mem _ hv)
  | case5 visited name rest fresh n found ih =>
    have hf : name ∉ visited := by simpa using fresh
    rw [pending_visits_append found] at ih
    obtain ⟨nodup, old⟩ := ih
      (List.nodup_cons.mpr ⟨fun h => hf (entered name h), distinct⟩)
      (fun x hx => (List.mem_cons.mp hx).elim (fun e => e ▸ List.mem_cons_self)
        (fun hx => List.mem_cons_of_mem _ (entered x hx)))
    refine ⟨nodup, fun x hx hv => ?_⟩
    rcases List.mem_cons.mp (old x hx (List.mem_cons_of_mem _ hv)) with rfl | h
    · exact absurd hv hf
    · exact h

theorem nodup_walk_enter (name : String) : (t.walk [] [.enter name]).Nodup :=
  (walk_nodup (by simp) (by simp)).1

end SymbolTable

end RubyIndex
