import RubyIndex.Proofs.FirstOccurrences

/-! The symbol table as a fold of the log of declarations. Files are added one by one and namespaces
are merged pairwise, and yet each entry says what all declarations of its name say together. -/
namespace RubyIndex

def Method.declared (m : Method) : Method := { m with aliases := [] }

theorem declared_withAlias (m : Method) (name : String) :
    (m.withAlias name).declared = m.declared := by
  unfold Method.withAlias
  split <;> rfl

/-- A change that keeps a feature of methods keeps the list of it. -/
theorem map_updateFirst {α : Type} (feature : Method → α) (change : Method → Method)
    (keeps : ∀ m, feature (change m) = feature m) (name : String) (receiver : Receiver)
    (methods : List Method) :
    (updateFirst name receiver change methods).map feature = methods.map feature := by
  induction methods with
  | nil => rfl
  | cons m rest ih =>
    rw [updateFirst]
    split
    · rw [List.map_cons, List.map_cons, keeps]
    · rw [List.map_cons, List.map_cons, ih]

theorem map_declared_record (a : Alias) (methods : List Method) :
    (a.record methods).map (·.declared) = methods.map (·.declared) :=
  map_updateFirst (·.declared) (·.withAlias a.newName) (fun m => declared_withAlias m a.newName)
    a.oldName a.receiver methods

/-- Recording aliases changes nothing but the alias lists of methods. -/
theorem map_declared_applyAliases (methods : List Method) (aliases : List Alias) :
    (applyAliases methods aliases).map (·.declared) = methods.map (·.declared) := by
  induction aliases generalizing methods with
  | nil => rfl
  | cons a rest ih => exact (ih (a.record methods)).trans (map_declared_record a methods)

/-- The declaration that gives a namespace its kind and place: the first explicit one, or the first
one if all are implicit. -/
def placing (first : Namespace) (later : List Namespace) : Namespace :=
  ((first :: later).find? (!·.implicit)).getD first

def withNew (names : List String) (more : List (List String)) : List String :=
  names ++ keepFirst id (more.flatten.filter (· ∉ names))

theorem withNew_concat (names : List String) (more : List (List String)) (last : List String) :
    addNew (withNew names more) last = withNew names (more ++ [last]) := by
  simp only [withNew, addNew_eq, List.flatten_append, List.flatten_singleton, List.filter_append]
  rw [keepFirst_append, List.append_assoc, List.map_id,
    ← keepFirst_filter (by rintro _ _ rfl; rfl), List.filter_filter]
  congr 3
  refine List.filter_congr fun x _ => ?_
  by_cases hx : x ∈ names <;> simp [hx, mem_keepFirst_id]

theorem mem_withNew {names : List String} {more : List (List String)} {x : String} :
    x ∈ withNew names more ↔ x ∈ names ∨ ∃ l ∈ more, x ∈ l := by
  rw [withNew, List.mem_append, mem_keepFirst_id, List.mem_filter, List.mem_flatten]
  by_cases listed : x ∈ names <;> simp [listed]

/-- What a namespace says that is merged from a first declaration and later ones. -/
structure MergedFrom (first : Namespace) (later : List Namespace) (n : Namespace) : Prop where
  name : n.name = first.name
  qualifiedName : n.qualifiedName = first.qualifiedName
  superclass : n.superclass = (first :: later).findSome? (·.superclass)
  documentation : n.documentation = (first :: later).findSome? (·.documentation)
  kind : n.kind = (placing first later).kind
  path : n.path = (placing first later).path
  line : n.line = (placing first later).line
  implicit : n.implicit = (first :: later).all (·.implicit)
  constants : n.constants = (first :: later).flatMap (·.constants)
  aliases : n.aliases = (first :: later).flatMap (·.aliases)
  methods : n.methods.map (·.declared) =
    ((first :: later).flatMap (·.methods)).map (·.declared)
  included : n.included = withNew first.included (later.map (·.included))
  extended : n.extended = withNew first.extended (later.map (·.extended))
  prepended : n.prepended = withNew first.prepended (later.map (·.prepended))

theorem merged_first (first : Namespace) : MergedFrom first [] first := by
  have place : placing first [] = first := by
    unfold placing
    cases h : first.implicit <;> simp [h]
  constructor <;> simp [place, withNew, keepFirst]

theorem placing_concat (first last : Namespace) (later : List Namespace) :
    placing first (later ++ [last]) =
      if (first :: later).all (·.implicit) && !last.implicit then last
      else placing first later := by
  unfold placing
  rw [← List.cons_append, List.find?_append]
  cases h : (first :: later).find? (!·.implicit) with
  | none =>
    have all : (first :: later).all (·.implicit) = true := by
      simpa [List.find?_eq_none] using h
    cases hl : last.implicit <;> simp [all, hl]
  | some m =>
    have all : (first :: later).all (·.implicit) = false := by
      rw [List.all_eq_false]
      exact ⟨m, List.mem_of_find?_eq_some h, by simpa using List.find?_some h⟩
    simp [all]

theorem placing_explicit {first d : Namespace} {later : List Namespace} (hd : d ∈ first :: later)
    (explicit : d.implicit = false) :
    ∃ before after, first :: later = before ++ placing first later :: after ∧
      (∀ e ∈ before, e.implicit = true) ∧ (placing first later).implicit = false := by
  have some_explicit : ((first :: later).find? (!·.implicit)).isSome = true :=
    List.find?_isSome.mpr ⟨d, hd, by simp [explicit]⟩
  obtain ⟨m, found⟩ := Option.isSome_iff_exists.mp some_explicit
  obtain ⟨declared, before, after, split, implicit⟩ := List.find?_eq_some_iff_append.mp found
  rw [placing, found, Option.getD_some]
  exact ⟨before, after, split, by simpa using implicit, by simpa using declared⟩

theorem merge_eq (n last : Namespace) :
    n.merge last =
      { n with
        kind := if n.implicit && !last.implicit then last.kind else n.kind
        path := if n.implicit && !last.implicit then last.path else n.path
        line := if n.implicit && !last.implicit then last.line else n.line
        implicit := n.implicit && last.implicit
        superclass := n.superclass.or last.superclass
        included := addNew n.included last.included
        extended := addNew n.extended last.extended
        prepended := addNew n.prepended last.prepended
        constants := n.constants ++ last.constants
        methods := applyAliases (n.methods ++ last.methods) (n.aliases ++ last.aliases)
        aliases := n.aliases ++ last.aliases
        documentation := n.documentation.or last.documentation } := by
  unfold Namespace.merge
  cases n.implicit <;> cases last.implicit <;> rfl

theorem length_methods_merge (n last : Namespace) :
    (n.merge last).methods.length = n.methods.length + last.methods.length := by
  have same := congrArg List.length
    (map_declared_applyAliases (n.methods ++ last.methods) (n.aliases ++ last.aliases))
  simpa [merge_eq] using same

theorem merge_merged {first n : Namespace} {later : List Namespace} (h : MergedFrom first later n)
    (last : Namespace) : MergedFrom first (later ++ [last]) (n.merge last) := by
  have place := placing_concat first last later
  rw [← h.implicit] at place
  rw [merge_eq]
  constructor
  case name => exact h.name
  case qualifiedName => exact h.qualifiedName
  case superclass =>
    simp only [h.superclass, ← List.cons_append, List.findSome?_append, List.findSome?_singleton]
  case documentation =>
    simp only [h.documentation, ← List.cons_append, List.findSome?_append,
      List.findSome?_singleton]
  case kind => simp only [place, h.kind]; split <;> rfl
  case path => simp only [place, h.path]; split <;> rfl
  case line => simp only [place, h.line]; split <;> rfl
  case implicit => simp [h.implicit, Bool.and_assoc]
  case constants => simp [h.constants]
  case aliases => simp [h.aliases]
  case methods =>
    simp only [map_declared_applyAliases, List.map_append, h.methods, ← List.cons_append,
      List.flatMap_append, List.flatMap_singleton]
  case included =>
    simp only [h.included, withNew_concat, List.map_append, List.map_singleton]
  case extended =>
    simp only [h.extended, withNew_concat, List.map_append, List.map_singleton]
  case prepended =>
    simp only [h.prepended, withNew_concat, List.map_append, List.map_singleton]

theorem foldl_merged {first n : Namespace} {later : List Namespace} (h : MergedFrom first later n)
    (more : List Namespace) : MergedFrom first (later ++ more) (more.foldl Namespace.merge n) := by
  induction more generalizing n later with
  | nil => simpa using h
  | cons last more ih => simpa using ih (merge_merged h last)

end RubyIndex
