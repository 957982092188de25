import RubyIndex.Proofs.FirstOccurrences
import RubyIndex.StubFile.Reading
import RubyIndex.SymbolTable.Completion

/-! Completion against lookup. A call finds the first method along the lookup chain that answers to
the name. Completion offers the names and aliases of those methods only that are the nearest of
their own name, so that an alias is lost when the method that it was made for is overridden. -/
namespace RubyIndex

namespace SymbolTable

variable {t : SymbolTable} {name m : String} {receiver : Receiver}

def chainMethods (t : SymbolTable) (name : String) (receiver : Receiver) : List MethodMatch :=
  (t.lookupChain name receiver).flatMap t.entryMethods

/-- A method of a lookup chain before which the chain has no method of the same name. -/
def Nearest (t : SymbolTable) (name : String) (receiver : Receiver) (x : MethodMatch) : Prop :=
  ∃ before after, t.chainMethods name receiver = before ++ x :: after ∧
    ∀ y ∈ before, y.method.name ≠ x.method.name

/-- Whether completion without a start, private methods included, has a method item of a name. -/
def Offers (t : SymbolTable) (name : String) (receiver : Receiver) (m : String) : Prop :=
  ∃ i ∈ t.completeMembers name "" receiver true, i.kind = .method ∧ i.name = m

theorem find?_entryMethods (t : SymbolTable) (e : LookupEntry) (m : String) :
    (t.entryMethods e).find? (·.method.answersTo m) =
      (t.find? e.owner).bind fun n => (n.findMethod? m e.receiver).map (⟨n.qualifiedName, ·⟩) := by
  unfold entryMethods
  cases t.find? e.owner with
  | none => rfl
  | some n =>
    rw [List.find?_map, List.find?_filter, Option.bind_some, Namespace.findMethod?]
    refine congrArg (Option.map _ <| List.find? · n.methods) (funext fun a => ?_)
    rw [Method.reachedBy, Bool.decide_and, Bool.decide_eq_true, Bool.decide_eq_true]
    rfl

/-- A call finds the first method of the chain that answers to its name. -/
theorem resolveMethod?_eq (t : SymbolTable) (name m : String) (receiver : Receiver) :
    t.resolveMethod? name m receiver =
      (t.chainMethods name receiver).find? (·.method.answersTo m) := by
  rw [chainMethods, List.find?_flatMap, resolveMethod?]
  refine congrArg (List.findSome? · _) (funext fun e => ?_)
  rw [find?_entryMethods]
  cases t.find? e.owner with
  | none => rfl
  | some n =>
    cases h : n.findMethod? m e.receiver <;> simp [h]

theorem Nearest.mem {x : MethodMatch} (h : t.Nearest name receiver x) :
    x ∈ t.chainMethods name receiver := by
  obtain ⟨before, after, eq, -⟩ := h
  simp [eq]

theorem mem_availableMethods_iff {x : MethodMatch} :
    x ∈ t.availableMethods name receiver ↔ t.Nearest name receiver x := by
  rw [availableMethods, sortOn, List.mem_mergeSort, mem_keepFirst_iff]
  rfl

theorem mem_completions_iff {x : MethodMatch} {label : String} :
    (∃ i ∈ x.completions, i.name = label) ↔ x.method.answersTo label = true := by
  simp only [MethodMatch.completions, List.mem_map, exists_exists_and_eq_and, Method.answersTo,
    Bool.or_eq_true, beq_iff_eq, List.contains_iff_mem, List.mem_cons, exists_eq_right]
  exact or_congr_left eq_comm

theorem kind_of_mem_completions {x : MethodMatch} {i : Completion} (h : i ∈ x.completions) :
    i.kind = .method := by
  obtain ⟨label, -, rfl⟩ := List.mem_map.mp h
  rfl

theorem kind_of_mem_ancestorConstants {i : Completion} (h : i ∈ t.ancestorConstants name) :
    i.kind = .constant := by
  obtain ⟨a, -, hi⟩ := List.mem_flatMap.mp h
  cases hn : t.find? a with
  | none => simp [hn] at hi
  | some n =>
    simp only [hn, Option.map_some, Option.getD_some, Namespace.constantCompletions,
      List.mem_map] at hi
    obtain ⟨c, -, rfl⟩ := hi
    rfl

/-- The method items are those of the listed methods, the first of each name. A constant comes after
them, and never takes the place of one. -/
theorem mem_completeMembers_iff {start : String} {i : Completion} (kind : i.kind = .method) :
    i ∈ t.completeMembers name start receiver true ↔
      i ∈ keepFirst (·.name) ((t.availableMethods name receiver).flatMap (·.completions)) ∧
        startsWith start i.name = true := by
  have byName : ∀ a b : Completion, a.name = b.name →
      startsWith start a.name = startsWith start b.name := fun a b same => by rw [same]
  simp only [completeMembers, sortOn, List.mem_mergeSort, Bool.true_or, List.filter_true]
  rw [keepFirst_filter byName, List.mem_filter, keepFirst_append, List.mem_append]
  refine and_congr_left fun _ => ⟨?_, Or.inl⟩
  rintro (hi | hi)
  · exact hi
  · have constant := mem_of_mem_keepFirst (List.mem_filter.mp hi).1
    split at constant
    · rw [kind_of_mem_ancestorConstants constant] at kind
      cases kind
    · cases constant

/-- Completion offers the name and the aliases of each method that is the nearest of its name. -/
theorem offers_iff_nearest : t.Offers name receiver m ↔
    ∃ x, t.Nearest name receiver x ∧ x.method.answersTo m = true := by
  constructor
  · rintro ⟨i, hi, kind, rfl⟩
    have method := ((mem_completeMembers_iff kind).mp hi).1
    obtain ⟨x, hx, hi⟩ := List.mem_flatMap.mp (mem_of_mem_keepFirst method)
    exact ⟨x, mem_availableMethods_iff.mp hx, mem_completions_iff.mp ⟨i, hi, rfl⟩⟩
  · rintro ⟨x, hx, answers⟩
    obtain ⟨i, hi, rfl⟩ := mem_completions_iff.mpr answers
    have offered := List.mem_flatMap.mpr ⟨x, mem_availableMethods_iff.mpr hx, hi⟩
    obtain ⟨j, hj, name⟩ : ∃ j ∈ keepFirst Completion.name _, j.name = i.name :=
      exists_mem_keepFirst offered
    obtain ⟨y, -, member⟩ := List.mem_flatMap.mp (mem_of_mem_keepFirst hj)
    have kind := kind_of_mem_completions member
    exact ⟨j, (mem_completeMembers_iff kind).mpr ⟨hj, by simp [startsWith]⟩, kind, name⟩

theorem resolveMethod?_isSome_iff : (t.resolveMethod? name m receiver).isSome = true ↔
    ∃ x ∈ t.chainMethods name receiver, x.method.answersTo m = true := by
  rw [resolveMethod?_eq, List.find?_isSome]

/-- Whatever completion offers, lookup finds. The converse holds of a name exactly when each method
that answers to it may be replaced by one that no nearer method of the same name hides. -/
theorem offers_iff_resolves_iff_nearest (t : SymbolTable) (name m : String) (receiver : Receiver) :
    (t.Offers name receiver m → (t.resolveMethod? name m receiver).isSome = true) ∧
      ((t.Offers name receiver m ↔ (t.resolveMethod? name m receiver).isSome = true) ↔
        ∀ x ∈ t.chainMethods name receiver, x.method.answersTo m = true →
          ∃ y, t.Nearest name receiver y ∧ y.method.answersTo m = true) := by
  rw [offers_iff_nearest, resolveMethod?_isSome_iff]
  have sound : (∃ x, t.Nearest name receiver x ∧ x.method.answersTo m = true) →
      ∃ x ∈ t.chainMethods name receiver, x.method.answersTo m = true := by
    rintro ⟨x, ⟨before, after, eq, -⟩, answers⟩
    exact ⟨x, by simp [eq], answers⟩
  refine ⟨sound, fun same x hx answers => same.mpr ⟨x, hx, answers⟩, fun shown => ⟨sound, ?_⟩⟩
  rintro ⟨x, hx, answers⟩
  exact shown x hx answers

def overridingText : String :=
  "class Shape\ndef draw; end\nalias paint draw\nend\nclass Circle < Shape\ndef draw; end\nend"

def overridingFile : StubFile where
  path := "shape.rb"
  namespaces :=
    [{ kind := .klass, name := "Shape", qualifiedName := "Shape", path := "shape.rb", line := 1,
       methods := [{ name := "draw", line := 2, aliases := ["paint"] }],
       aliases := [⟨"paint", "draw", .inst, 3⟩] },
     { kind := .klass, name := "Circle", qualifiedName := "Circle", superclass := some "Shape",
       path := "shape.rb", line := 5, methods := [{ name := "draw", line := 6 }] }]

/-- Lookup finds the alias of the overridden method, which completion does not offer. -/
theorem overridden_alias_resolved_not_offered :
    (StubFile.parse overridingText "shape.rb").toOption = some overridingFile ∧
      ((ofFiles [overridingFile]).resolveMethod? "Circle" "paint" .inst).isSome = true ∧
      ¬(ofFiles [overridingFile]).Offers "Circle" .inst "paint" := by
  refine ⟨by decide, by cbv, ?_⟩
  have items : (ofFiles [overridingFile]).completeMembers "Circle" "" .inst true =
      [⟨"draw", .method, some "draw", some "Circle", none⟩] := by cbv
  rintro ⟨i, hi, -, name⟩
  rw [items, List.mem_singleton] at hi
  simp [hi] at name

end SymbolTable

end RubyIndex
