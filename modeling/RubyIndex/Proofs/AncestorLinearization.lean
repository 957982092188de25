import Mathlib.Data.List.Perm.Subperm
import RubyIndex.Proofs.AncestorWalk
import RubyIndex.Proofs.FirstOccurrences

/-! The ancestors of a namespace in order. Where no ancestor is its own ancestor, the walk gives the
naive recursive linearization, in which each name stays where it stands first. -/
namespace RubyIndex

namespace SymbolTable

variable {t : SymbolTable} {name : String}

theorem AcyclicFrom.successor {next : String} (h : t.AcyclicFrom name)
    (hn : t.Links name next) : t.AcyclicFrom next :=
  fun x hx => h x (.head hn hx)

theorem AcyclicFrom.not_reaches_back {next : String} (h : t.AcyclicFrom name)
    (hn : t.Links name next) : ¬ t.Reaches next name :=
  fun hr => h name .refl (.head' hn hr)

def isAcyclic (t : SymbolTable) (name : String) : Bool :=
  (t.walk [] [.enter name]).all fun x =>
    (t.successors x).all fun y => !(t.walk [] [.enter y]).contains x

theorem isAcyclic_iff : t.isAcyclic name = true ↔ t.AcyclicFrom name := by
  simp only [isAcyclic, List.all_eq_true, Bool.not_eq_true', List.contains_eq_mem,
    decide_eq_false_iff_not, mem_walk_iff]
  constructor
  · intro h x hx hc
    obtain ⟨y, hy, back⟩ := Relation.TransGen.head'_iff.mp hc
    exact h x hx y hy back
  · intro h x hx y hy back
    exact h x hx (.head' hy back)

instance (t : SymbolTable) (name : String) : Decidable (t.AcyclicFrom name) :=
  decidable_of_iff _ isAcyclic_iff

/-- Without cycles fewer names can be reached from a successor. -/
theorem walk_length_lt {next : String} (h : t.AcyclicFrom name) (hn : t.Links name next) :
    (t.walk [] [.enter next]).length < (t.walk [] [.enter name]).length := by
  have distinct : (name :: t.walk [] [.enter next]).Nodup :=
    List.nodup_cons.mpr ⟨fun hm => h.not_reaches_back hn (mem_walk_iff.mp hm),
      nodup_walk_enter next⟩
  refine (List.subperm_of_subset distinct ?_).length_le
  intro x hx
  rcases List.mem_cons.mp hx with rfl | hx
  · exact mem_walk_iff.mpr .refl
  · exact mem_walk_iff.mpr (.head hn (mem_walk_iff.mp hx))

/-- The naive linearization: the prepended modules, the last first, the namespace, the included
modules, the last first, and the superclass, each with its own linearization. It is not defined
where a name is its own ancestor. -/
def linearization (t : SymbolTable) (name : String) : List String :=
  if _acyclic : t.AcyclicFrom name then
    match _found : t.find? name with
    | none => [name]
    | some n =>
      (n.prepended.reverse.attach.flatMap fun ⟨m, _hm⟩ => linearization t (t.resolveMixin n m)) ++
        [name] ++
        (n.included.reverse.attach.flatMap fun ⟨m, _hm⟩ => linearization t (t.resolveMixin n m)) ++
        (t.superclassOf n).toList.attach.flatMap fun ⟨s, _hs⟩ => linearization t s
  else []
termination_by (t.walk [] [.enter name]).length
decreasing_by
  · exact walk_length_lt _acyclic (links_prepended _found (List.mem_reverse.mp _hm))
  · exact walk_length_lt _acyclic (links_included _found (List.mem_reverse.mp _hm))
  · exact walk_length_lt _acyclic (links_superclass _found (Option.mem_toList.mp _hs))

theorem linearization_absent (h : t.AcyclicFrom name) (absent : t.find? name = none) :
    t.linearization name = [name] := by
  rw [linearization, dif_pos h]
  split
  · rfl
  · simp_all

theorem linearization_present {n : Namespace} (h : t.AcyclicFrom name)
    (found : t.find? name = some n) :
    t.linearization name =
      (n.prepended.reverse.flatMap fun m => t.linearization (t.resolveMixin n m)) ++ [name] ++
        (n.included.reverse.flatMap fun m => t.linearization (t.resolveMixin n m)) ++
        (t.superclassOf n).toList.flatMap t.linearization := by
  rw [linearization, dif_pos h]
  split
  · simp_all
  · next m hm =>
    obtain rfl : m = n := Option.some.inj (hm.symm.trans found)
    simp only [List.flatMap_subtype, List.unattach_attach]

def expand (t : SymbolTable) (todo : List Visit) : List String :=
  todo.flatMap fun
    | .enter name => t.linearization name
    | .list name => [name]

@[simp] theorem expand_list (name : String) (rest : List Visit) :
    t.expand (.list name :: rest) = name :: t.expand rest := rfl

@[simp] theorem expand_enter (name : String) (rest : List Visit) :
    t.expand (.enter name :: rest) = t.linearization name ++ t.expand rest := rfl

theorem expand_visits_append {n : Namespace} (h : t.AcyclicFrom name)
    (found : t.find? name = some n) (rest : List Visit) :
    t.expand (t.visits n ++ rest) = t.linearization name ++ t.expand rest := by
  rw [linearization_present h found, ← qualifiedName_of_find? found]
  simp [expand, visits, List.flatMap_map, -List.map_reverse]

theorem split_append {first rest before after : List Visit} {v : Visit}
    (h : first ++ rest = before ++ v :: after) :
    v ∈ first ∨ ∃ b, before = first ++ b ∧ rest = b ++ v :: after := by
  rcases List.append_eq_append_iff.mp h with ⟨b, hb, hr⟩ | ⟨c, hf, hc⟩
  · exact Or.inr ⟨b, hb, hr⟩
  · rcases List.cons_eq_append_iff.mp hc with ⟨rfl, hr⟩ | ⟨c, rfl, _⟩
    · exact Or.inr ⟨[], by simpa using hf.symm, hr⟩
    · exact Or.inl (by simp [hf])

/-- The state of a walk that has listed some names so far. A namespace that was entered is either
being walked or complete: before a visit from which it can be reached comes up again, all of its
linearization is listed. -/
structure Progress (t : SymbolTable) (visited listed : List String) (todo : List Visit) : Prop where
  acyclic : ∀ x, .enter x ∈ todo → t.AcyclicFrom x
  listed_visited : ∀ x ∈ listed, x ∈ visited
  pending_visited : ∀ x ∈ pending todo, x ∈ visited ∧ x ∉ listed
  pending_distinct : (pending todo).Nodup
  complete : ∀ x ∈ visited, ∀ before next after, todo = before ++ .enter next :: after →
    t.Reaches next x → ∀ y ∈ t.linearization x, y ∈ listed ∨ y ∈ t.expand before

namespace Progress

variable {visited listed : List String} {rest : List Visit}

theorem list (p : t.Progress visited listed (.list name :: rest)) :
    name ∉ listed ∧ t.Progress visited (name :: listed) rest := by
  obtain ⟨hn, hd⟩ := List.nodup_cons.mp p.pending_distinct
  obtain ⟨hv, hl⟩ := p.pending_visited name List.mem_cons_self
  refine ⟨hl, ⟨fun x hx => p.acyclic x (List.mem_cons_of_mem _ hx), ?_, ?_, hd, ?_⟩⟩
  · intro x hx
    rcases List.mem_cons.mp hx with rfl | hx
    · exact hv
    · exact p.listed_visited x hx
  · intro x hx
    obtain ⟨hxv, hxl⟩ := p.pending_visited x (List.mem_cons_of_mem _ hx)
    refine ⟨hxv, fun h => ?_⟩
    rcases List.mem_cons.mp h with rfl | h
    · exact hn hx
    · exact hxl h
  · intro x hx before next after eq hr y hy
    rcases p.complete x hx (.list name :: before) next after (by rw [eq]; rfl) hr y hy with h | h
    · exact Or.inl (List.mem_cons_of_mem _ h)
    · rcases List.mem_cons.mp h with rfl | h
      · exact Or.inl List.mem_cons_self
      · exact Or.inr h

theorem skip (p : t.Progress visited listed (.enter name :: rest)) (seen : name ∈ visited) :
    (∀ y ∈ t.linearization name, y ∈ listed) ∧ t.Progress visited listed rest := by
  have done : ∀ y ∈ t.linearization name, y ∈ listed := by
    intro y hy
    rcases p.complete name seen [] name rest rfl .refl y hy with h | h
    · exact h
    · simp [expand] at h
  refine ⟨done, ⟨fun x hx => p.acyclic x (List.mem_cons_of_mem _ hx), p.listed_visited,
    p.pending_visited, p.pending_distinct, ?_⟩⟩
  intro x hx before next after eq hr y hy
  rcases p.complete x hx (.enter name :: before) next after (by rw [eq]; rfl) hr y hy with h | h
  · exact Or.inl h
  · rcases List.mem_append.mp h with h | h
    · exact Or.inl (done y h)
    · exact Or.inr h

theorem absent (p : t.Progress visited listed (.enter name :: rest)) (fresh : name ∉ visited)
    (absent : t.find? name = none) :
    t.Progress (name :: visited) (name :: listed) rest := by
  have alone := linearization_absent (p.acyclic name List.mem_cons_self) absent
  refine ⟨fun x hx => p.acyclic x (List.mem_cons_of_mem _ hx), ?_, ?_, p.pending_distinct, ?_⟩
  · intro x hx
    rcases List.mem_cons.mp hx with rfl | hx
    · exact List.mem_cons_self
    · exact List.mem_cons_of_mem _ (p.listed_visited x hx)
  · intro x hx
    obtain ⟨hv, hl⟩ := p.pending_visited x hx
    refine ⟨List.mem_cons_of_mem _ hv, fun h => ?_⟩
    rcases List.mem_cons.mp h with rfl | h
    · exact fresh hv
    · exact hl h
  · intro x hx before next after eq hr y hy
    rcases List.mem_cons.mp hx with rfl | hx
    · rw [alone, List.mem_singleton] at hy
      exact Or.inl (hy ▸ List.mem_cons_self)
    · rcases p.complete x hx (.enter name :: before) next after (by rw [eq]; rfl) hr y hy with h | h
      · exact Or.inl (List.mem_cons_of_mem _ h)
      · rw [expand_enter, alone] at h
        rcases List.mem_cons.mp h with rfl | h
        · exact Or.inl List.mem_cons_self
        · exact Or.inr h

theorem enter {n : Namespace} (p : t.Progress visited listed (.enter name :: rest))
    (fresh : name ∉ visited) (found : t.find? name = some n) :
    t.Progress (name :: visited) listed (t.visits n ++ rest) := by
  have acyclic := p.acyclic name List.mem_cons_self
  refine ⟨?_, fun x hx => List.mem_cons_of_mem _ (p.listed_visited x hx), ?_, ?_, ?_⟩
  · intro x hx
    rcases List.mem_append.mp hx with hx | hx
    · exact acyclic.successor ((enter_mem_visits found).mp hx)
    · exact p.acyclic x (List.mem_cons_of_mem _ hx)
  · rw [pending_visits_append found]
    intro x hx
    rcases List.mem_cons.mp hx with rfl | hx
    · exact ⟨List.mem_cons_self, fun h => fresh (p.listed_visited x h)⟩
    · obtain ⟨hv, hl⟩ := p.pending_visited x hx
      exact ⟨List.mem_cons_of_mem _ hv, hl⟩
  · rw [pending_visits_append found]
    exact List.nodup_cons.mpr ⟨fun h => fresh (p.pending_visited name h).1, p.pending_distinct⟩
  · intro x hx before next after eq hr y hy
    rcases split_append eq with hm | ⟨b, rfl, eq_rest⟩
    · have link := (enter_mem_visits found).mp hm
      rcases List.mem_cons.mp hx with rfl | hx
      · exact absurd hr (acyclic.not_reaches_back link)
      · rcases p.complete x hx [] name rest rfl (.head link hr) y hy with h | h
        · exact Or.inl h
        · simp [expand] at h
    · rw [expand_visits_append acyclic found]
      rcases List.mem_cons.mp hx with rfl | hx
      · exact Or.inr (List.mem_append_left _ hy)
      · exact p.complete x hx (.enter name :: b) next after (by rw [eq_rest]; rfl) hr y hy

end Progress

/-- What a walk still lists is the linearization of what is left to do, without what is listed. -/
theorem walk_eq_expand {visited listed : List String} {todo : List Visit}
    (p : t.Progress visited listed todo) :
    t.walk visited todo = (keepFirst id (t.expand todo)).filter (· ∉ listed) := by
  fun_induction walk t visited todo generalizing listed with
  | case1 => rfl
  | case2 visited name rest ih =>
    obtain ⟨fresh, p⟩ := p.list
    rw [ih p, expand_list, filter_keepFirst_cons fresh]
  | case3 visited name rest seen ih =>
    obtain ⟨done, p⟩ := p.skip (by simpa using seen)
    rw [ih p, expand_enter, filter_keepFirst_append done]
  | case4 visited name rest fresh absent ih =>
    have hf : name ∉ visited := by simpa using fresh
    have alone := linearization_absent (p.acyclic name List.mem_cons_self) absent
    rw [ih (p.absent hf absent), expand_enter, alone]
    exact (filter_keepFirst_cons fun h => hf (p.listed_visited name h)).symm
  | case5 visited name rest fresh n found ih =>
    rw [ih (p.enter (by simpa using fresh) found),
      expand_visits_append (p.acyclic name List.mem_cons_self) found, expand_enter]

theorem walk_eq_linearization (h : t.AcyclicFrom name) :
    t.walk [] [.enter name] = keepFirst id (t.linearization name) := by
  have start : t.Progress [] [] [.enter name] :=
    ⟨by simpa using h, by simp, by simp, by simp, by simp⟩
  rw [walk_eq_expand start]
  simp [expand]

/-- The ancestors of a name are the names that it reaches, each once, and where no name reaches
itself they stand in the order of the naive linearization. -/
theorem ancestors_linearized (t : SymbolTable) (name : String) :
    (t.ancestors name).Nodup ∧
      (∀ x, x ∈ t.ancestors name ↔ t.Reaches (dropRoot name) x) ∧
      (t.AcyclicFrom (dropRoot name) →
        t.ancestors name = keepFirst id (t.linearization (dropRoot name))) :=
  ⟨nodup_walk_enter _, fun _ => mem_walk_iff, walk_eq_linearization⟩

def diamond : SymbolTable :=
  ofFiles [{ path := "diamond.rb", namespaces := [
    { kind := .modul, name := "Top", qualifiedName := "Top", path := "diamond.rb" },
    { kind := .modul, name := "Left", qualifiedName := "Left", included := ["Top"],
      path := "diamond.rb" },
    { kind := .modul, name := "Right", qualifiedName := "Right", included := ["Top"],
      path := "diamond.rb" },
    { kind := .klass, name := "Bottom", qualifiedName := "Bottom", superclass := some "Object",
      included := ["Left", "Right"], path := "diamond.rb" }] }]

theorem diamond_linearized :
    diamond.AcyclicFrom (dropRoot "::Bottom") ∧
      diamond.linearization "Bottom" = ["Bottom", "Right", "Top", "Left", "Top", "Object"] ∧
      diamond.ancestors "::Bottom" =
        keepFirst id (diamond.linearization (dropRoot "::Bottom")) := by
  have acyclic : diamond.AcyclicFrom (dropRoot "::Bottom") := isAcyclic_iff.mp (by cbv)
  exact ⟨acyclic, by cbv, (ancestors_linearized diamond "::Bottom").2.2 acyclic⟩

end SymbolTable

end RubyIndex
