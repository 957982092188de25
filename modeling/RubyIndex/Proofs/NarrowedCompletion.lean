import RubyIndex.Proofs.CompletionLookup
import RubyIndex.Proofs.StableSorting

/-! Completing members from a longer start. Which item has a label is decided among all items of
that label, and the start is the beginning of all of them or of none. So a longer start leaves items
out and never brings another one forward. -/
namespace RubyIndex

def Method.offeredTo (m : Method) (includePrivate : Bool) : Bool :=
  includePrivate || m.visibility != .priv

namespace SymbolTable

variable {t : SymbolTable} {name start : String} {receiver : Receiver} {includePrivate : Bool}
  {i : Completion}

/-- The items of the methods that may be offered, a method under its name and its aliases. -/
def methodItems (t : SymbolTable) (name : String) (receiver : Receiver) (includePrivate : Bool) :
    List Completion :=
  ((t.availableMethods name receiver).filter (·.method.offeredTo includePrivate)).flatMap
    (·.completions)

/-- The items of the constants, which are only offered on the namespace itself. -/
def constantItems (t : SymbolTable) (name : String) (receiver : Receiver) : List Completion :=
  if receiver = .singleton then t.ancestorConstants name else []

theorem completeMembers_eq (t : SymbolTable) (name start : String) (receiver : Receiver)
    (includePrivate : Bool) :
    t.completeMembers name start receiver includePrivate =
      sortOn (·.name) (keepFirst (·.name)
        ((t.methodItems name receiver includePrivate ++ t.constantItems name receiver).filter
          fun i => startsWith start i.name)) := rfl

theorem startsWith_empty (name : String) : startsWith "" name = true := by simp [startsWith]

/-- The start may be looked at before or after the first item of each label is picked. -/
theorem completeMembers_filter (t : SymbolTable) (name start : String) (receiver : Receiver)
    (includePrivate : Bool) :
    t.completeMembers name start receiver includePrivate =
      (t.completeMembers name "" receiver includePrivate).filter
        fun i => startsWith start i.name := by
  have byLabel (a b : Completion) (same : a.name = b.name) :
      startsWith start a.name = startsWith start b.name := by rw [same]
  rw [completeMembers_eq, completeMembers_eq, keepFirst_filter byLabel, sortOn,
    ← filter_mergeSort (key_le_trans _) (key_le_total _), ← sortOn]
  simp only [startsWith_empty, List.filter_true]

theorem mem_completeMembers_iff_find? :
    i ∈ t.completeMembers name start receiver includePrivate ↔
      startsWith start i.name = true ∧
        ((t.methodItems name receiver includePrivate).find? (·.name == i.name)).or
          ((t.constantItems name receiver).find? (·.name == i.name)) = some i := by
  rw [completeMembers_filter, List.mem_filter, completeMembers_eq, sortOn, List.mem_mergeSort]
  simp only [startsWith_empty, List.filter_true]
  rw [mem_keepFirst_iff_find?, List.find?_append, and_comm]

theorem mem_methodItems_iff : i ∈ t.methodItems name receiver includePrivate ↔
    ∃ x ∈ t.availableMethods name receiver, x.method.offeredTo includePrivate = true ∧
      i ∈ x.completions := by
  simp only [methodItems, List.mem_flatMap, List.mem_filter, and_assoc]

theorem find?_methodItems_eq_none_iff {label : String} :
    (t.methodItems name receiver includePrivate).find? (·.name == label) = none ↔
      ∀ x ∈ t.availableMethods name receiver, x.method.offeredTo includePrivate = true →
        x.method.answersTo label = false := by
  rw [List.find?_eq_none]
  constructor
  · intro none x hx offered
    rw [← Bool.not_eq_true, ← mem_completions_iff]
    rintro ⟨i, hi, rfl⟩
    exact none i (mem_methodItems_iff.mpr ⟨x, hx, offered, hi⟩) (beq_self_eq_true _)
  · intro silent i hi labelled
    obtain ⟨x, hx, offered, hi⟩ := mem_methodItems_iff.mp hi
    have answers := mem_completions_iff.mp ⟨i, hi, beq_iff_eq.mp labelled⟩
    rw [silent x hx offered] at answers
    cases answers

/-- An item is one of a method, or it is one of a constant and no method that may be offered answers
to its label. -/
theorem methods_before_constants (h : i ∈ t.completeMembers name start receiver includePrivate) :
    (i.kind = .method ∧ ∃ x ∈ t.availableMethods name receiver,
        x.method.offeredTo includePrivate = true ∧ i ∈ x.completions) ∨
      (i.kind = .constant ∧ receiver = .singleton ∧ i ∈ t.ancestorConstants name ∧
        ∀ x ∈ t.availableMethods name receiver, x.method.offeredTo includePrivate = true →
          x.method.answersTo i.name = false) := by
  obtain ⟨-, found⟩ := mem_completeMembers_iff_find?.mp h
  cases method : (t.methodItems name receiver includePrivate).find? (·.name == i.name) with
  | some j =>
    rw [method, Option.some_or] at found
    obtain rfl := Option.some.inj found
    obtain ⟨x, hx, offered, hi⟩ := mem_methodItems_iff.mp (List.mem_of_find?_eq_some method)
    exact .inl ⟨kind_of_mem_completions hi, x, hx, offered, hi⟩
  | none =>
    rw [method, Option.none_or] at found
    have constant := List.mem_of_find?_eq_some found
    unfold constantItems at constant
    split at constant
    · next singleton =>
      exact .inr ⟨kind_of_mem_ancestorConstants constant, singleton, constant,
        find?_methodItems_eq_none_iff.mp method⟩
    · cases constant

theorem exists_item_of_mem {j : Completion}
    (listed : j ∈ t.methodItems name receiver includePrivate ++ t.constantItems name receiver)
    (starts : startsWith start j.name = true) :
    ∃ i ∈ t.completeMembers name start receiver includePrivate, i.name = j.name := by
  have started := List.mem_filter (p := fun i => startsWith start i.name).mpr ⟨listed, starts⟩
  obtain ⟨i, hi, same⟩ : ∃ i ∈ keepFirst Completion.name _, i.name = j.name :=
    exists_mem_keepFirst started
  rw [completeMembers_eq]
  exact ⟨i, List.mem_mergeSort.mpr hi, same⟩

/-- A label that a method on offer answers to has a method item, also where a constant has it. -/
theorem exists_method_item {x : MethodMatch} {label : String}
    (hx : x ∈ t.availableMethods name receiver)
    (offered : x.method.offeredTo includePrivate = true) (answers : x.method.answersTo label = true)
    (starts : startsWith start label = true) :
    ∃ i ∈ t.completeMembers name start receiver includePrivate,
      i.name = label ∧ i.kind = .method := by
  obtain ⟨j, hj, rfl⟩ := mem_completions_iff.mpr answers
  have listed := List.mem_append_left (t.constantItems name receiver)
    (mem_methodItems_iff.mpr ⟨x, hx, offered, hj⟩)
  obtain ⟨i, hi, same⟩ := exists_item_of_mem listed starts
  rcases methods_before_constants hi with ⟨kind, -⟩ | ⟨-, -, -, silent⟩
  · exact ⟨i, hi, same, kind⟩
  · rw [← same, silent x hx offered] at answers
    cases answers

theorem exists_constant_item {j : Completion} (hj : j ∈ t.ancestorConstants name)
    (starts : startsWith start j.name = true) :
    ∃ i ∈ t.completeMembers name start .singleton includePrivate, i.name = j.name :=
  exists_item_of_mem (List.mem_append_right _ hj) starts

theorem labels_ascend (t : SymbolTable) (name start : String) (receiver : Receiver)
    (includePrivate : Bool) :
    (t.completeMembers name start receiver includePrivate).Pairwise (·.name < ·.name) := by
  have sorted : (t.completeMembers name start receiver includePrivate).Pairwise
      (·.name ≤ ·.name) := pairwise_sortOn _ _
  have distinct : ((t.completeMembers name start receiver includePrivate).map (·.name)).Nodup := by
    rw [completeMembers_eq, sortOn]
    exact ((List.mergeSort_perm _ _).map _).nodup_iff.mpr (nodup_map_keepFirst _ _)
  rw [List.Nodup, List.pairwise_map] at distinct
  exact sorted.imp₂ (fun a b le ne => Std.lt_of_le_of_ne le ne) distinct

/-- A longer start only filters the items. They stand in strictly ascending order of their labels.
Each label with the start that a method on offer answers to has a method item, and the constants are
offered under all other labels that they have. -/
theorem completeMembers_narrows (t : SymbolTable) (name start : String) (receiver : Receiver)
    (includePrivate : Bool) :
    t.completeMembers name start receiver includePrivate =
        (t.completeMembers name "" receiver includePrivate).filter
          (fun i => startsWith start i.name) ∧
      (t.completeMembers name start receiver includePrivate).Pairwise (·.name < ·.name) ∧
      (∀ i ∈ t.completeMembers name start receiver includePrivate,
        (i.kind = .method ∧ ∃ x ∈ t.availableMethods name receiver,
            x.method.offeredTo includePrivate = true ∧ i ∈ x.completions) ∨
          (i.kind = .constant ∧ receiver = .singleton ∧ i ∈ t.ancestorConstants name ∧
            ∀ x ∈ t.availableMethods name receiver, x.method.offeredTo includePrivate = true →
              x.method.answersTo i.name = false)) ∧
      (∀ label, startsWith start label = true →
        (∃ x ∈ t.availableMethods name receiver, x.method.offeredTo includePrivate = true ∧
          x.method.answersTo label = true) →
        ∃ i ∈ t.completeMembers name start receiver includePrivate,
          i.name = label ∧ i.kind = .method) ∧
      (receiver = .singleton → ∀ j ∈ t.ancestorConstants name, startsWith start j.name = true →
        ∃ i ∈ t.completeMembers name start receiver includePrivate, i.name = j.name) := by
  refine ⟨t.completeMembers_filter name start receiver includePrivate,
    t.labels_ascend name start receiver includePrivate, fun _ => methods_before_constants, ?_, ?_⟩
  · rintro label starts ⟨x, hx, offered, answers⟩
    exact exists_method_item hx offered answers starts
  · rintro rfl j hj starts
    exact exists_constant_item hj starts

def scaleFile : StubFile where
  path := "shape.rb"
  namespaces :=
    [{ kind := .klass, name := "Shape", qualifiedName := "Shape", path := "shape.rb", line := 1,
       constants := [{ name := "Scale", value := "1", line := 2 },
         { name := "Sides", value := "4", line := 4 }],
       methods := [{ name := "Scale", receiver := .singleton, line := 3 }] }]

/-- The method takes the name from the constant, and the other constant stays. -/
theorem scale_completeMembers_narrows :
    (ofFiles [scaleFile]).availableMethods "Shape" .singleton =
        [⟨"Shape", { name := "Scale", receiver := .singleton, line := 3 }⟩] ∧
      (ofFiles [scaleFile]).ancestorConstants "Shape" =
        [⟨"Scale", .constant, some "1", some "Shape", none⟩,
          ⟨"Sides", .constant, some "4", some "Shape", none⟩] ∧
      (∃ i ∈ (ofFiles [scaleFile]).completeMembers "Shape" "S" .singleton false,
        i.name = "Scale" ∧ i.kind = .method) ∧
      (∃ i ∈ (ofFiles [scaleFile]).completeMembers "Shape" "S" .singleton false,
        i.name = "Sides") := by
  have methods : (ofFiles [scaleFile]).availableMethods "Shape" .singleton =
      [⟨"Shape", { name := "Scale", receiver := .singleton, line := 3 }⟩] := by cbv
  have constants : (ofFiles [scaleFile]).ancestorConstants "Shape" =
      [⟨"Scale", .constant, some "1", some "Shape", none⟩,
        ⟨"Sides", .constant, some "4", some "Shape", none⟩] := by cbv
  obtain ⟨-, -, -, methodItem, constantItem⟩ :=
    completeMembers_narrows (ofFiles [scaleFile]) "Shape" "S" .singleton false
  have scale := methodItem "Scale" (by decide)
  have sides := constantItem rfl
  rw [methods] at scale
  rw [constants] at sides
  exact ⟨methods, constants, scale ⟨_, .head _, by decide, by decide⟩,
    sides _ (.tail _ (.head _)) (by decide)⟩

end SymbolTable

end RubyIndex
