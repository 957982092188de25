import Mathlib.Data.List.Find
import Mathlib.Data.List.Permutation
import RubyIndex.Proofs.CompletionLookup
import RubyIndex.Proofs.StableSorting
import RubyIndex.Server.Answer

/-! What the lists of methods say, against the method that a call reaches. The lists compare the
names of methods alone, and a call goes by aliases too. So a listed method is out of reach when a
nearer one has its name as an alias, and completion may describe another method than the one that
a call by the offered name reaches. -/
namespace RubyIndex

def Server.NamespaceInfo.methodsFor (info : NamespaceInfo) : Receiver → List MethodMatch
  | .inst => info.instanceMethods
  | .singleton => info.singletonMethods

namespace SymbolTable

variable {t : SymbolTable} {name start label : String} {receiver : Receiver} {x y : MethodMatch}

theorem nearest_iff_find? : t.Nearest name receiver x ↔
    (t.chainMethods name receiver).find? (·.method.name == x.method.name) = some x := by
  rw [Nearest, ← mem_keepFirst_iff, mem_keepFirst_iff_find?]

theorem Nearest.eq_of_name_eq (hx : t.Nearest name receiver x) (hy : t.Nearest name receiver y)
    (same : x.method.name = y.method.name) : x = y := by
  rw [nearest_iff_find?] at hx hy
  rw [same] at hx
  exact Option.some.inj (hx.symm.trans hy)

/-- How a call by its own name comes to a method. No nearer method has the name, and the call goes
to the first nearer method with the name as an alias if there is one. -/
def ReachedUnlessAliased (t : SymbolTable) (name : String) (receiver : Receiver)
    (x : MethodMatch) : Prop :=
  ∃ before after, t.chainMethods name receiver = before ++ x :: after ∧
    (∀ y ∈ before, y.method.name ≠ x.method.name) ∧
    t.resolveMethod? name x.method.name receiver =
      some ((before.find? (·.method.aliases.contains x.method.name)).getD x) ∧
    (t.resolveMethod? name x.method.name receiver = some x ↔
      ∀ y ∈ before, x.method.name ∉ y.method.aliases)

theorem Nearest.reached (h : t.Nearest name receiver x) :
    t.ReachedUnlessAliased name receiver x := by
  obtain ⟨before, after, eq, apart⟩ := h
  have byAlias : before.find? (·.method.answersTo x.method.name) =
      before.find? (·.method.aliases.contains x.method.name) :=
    List.find?_congr fun y hy => by simp [Method.answersTo, apart y hy]
  have called : t.resolveMethod? name x.method.name receiver =
      some ((before.find? (·.method.aliases.contains x.method.name)).getD x) := by
    rw [resolveMethod?_eq, eq, List.find?_append, byAlias,
      List.find?_cons_of_pos (by simp [Method.answersTo])]
    cases before.find? _ <;> rfl
  refine ⟨before, after, eq, apart, called, ?_⟩
  rw [called]
  constructor
  · intro reached y hy aliased
    have found : (before.find? (·.method.aliases.contains x.method.name)).isSome = true :=
      List.find?_isSome.mpr ⟨y, hy, by simpa using aliased⟩
    obtain ⟨z, found⟩ := Option.isSome_iff_exists.mp found
    rw [found, Option.getD_some, Option.some.injEq] at reached
    exact apart z (List.mem_of_find?_eq_some found) (by rw [reached])
  · intro free
    rw [List.find?_eq_none.mpr fun y hy => by simpa using free y hy, Option.getD_none]

theorem available_of_listed {limit : Int} {s : Snapshot} {info : Server.NamespaceInfo}
    (answer : Server.namespaceInfo limit s name true = .ok info)
    (listed : x ∈ info.methodsFor receiver) :
    x ∈ s.table.availableMethods info.merged.qualifiedName receiver := by
  unfold Server.namespaceInfo at answer
  cases required : Server.require s name with
  | error e =>
    rw [required] at answer
    cases answer
  | ok n =>
    rw [required] at answer
    obtain rfl := Except.ok.inj answer
    cases receiver <;>
      exact (List.mem_filter.mp (List.mem_mergeSort.mp listed)).1

/-- A listed method is the one that a call by its name reaches exactly when no nearer method has
the name as an alias. -/
theorem available_reached_iff_unaliased (t : SymbolTable) (name : String) (receiver : Receiver) :
    (∀ x ∈ t.availableMethods name receiver, t.ReachedUnlessAliased name receiver x) ∧
      ∀ (limit : Int) (s : Snapshot) (info : Server.NamespaceInfo), s.table = t →
        Server.namespaceInfo limit s name true = .ok info → ∀ x ∈ info.methodsFor receiver,
          t.ReachedUnlessAliased info.merged.qualifiedName receiver x := by
  refine ⟨fun x hx => (mem_availableMethods_iff.mp hx).reached, ?_⟩
  rintro limit s info rfl answer x hx
  exact (mem_availableMethods_iff.mp (available_of_listed answer hx)).reached

def hidingText : String :=
  "class Shape\ndef paint; end\nend\nclass Circle < Shape\ndef draw; end\nalias paint draw\nend"

def hidingFile : StubFile where
  path := "shape.rb"
  namespaces :=
    [{ kind := .klass, name := "Shape", qualifiedName := "Shape", path := "shape.rb", line := 1,
       methods := [{ name := "paint", line := 2 }] },
     { kind := .klass, name := "Circle", qualifiedName := "Circle", superclass := some "Shape",
       path := "shape.rb", line := 4,
       methods := [{ name := "draw", line := 5, aliases := ["paint"] }],
       aliases := [⟨"paint", "draw", .inst, 6⟩] }]

/-- The inherited method is listed, and a call by its name reaches the alias. -/
theorem aliased_method_listed_not_reached :
    (StubFile.parse hidingText "shape.rb").toOption = some hidingFile ∧
      (ofFiles [hidingFile]).availableMethods "Circle" .inst =
        [⟨"Circle", { name := "draw", line := 5, aliases := ["paint"] }⟩,
          ⟨"Shape", { name := "paint", line := 2 }⟩] ∧
      (ofFiles [hidingFile]).resolveMethod? "Circle" "paint" .inst =
        some ⟨"Circle", { name := "draw", line := 5, aliases := ["paint"] }⟩ := by
  refine ⟨by decide, by cbv, by cbv⟩

/-- The method that completion offers under a label is the nearest of its name, and of the nearest
methods that answer to the label the one whose name sorts first. -/
structure Offered (t : SymbolTable) (name : String) (receiver : Receiver) (label : String)
    (x : MethodMatch) : Prop where
  nearest : t.Nearest name receiver x
  answers : x.method.answersTo label = true
  first : ∀ z, t.Nearest name receiver z → z.method.answersTo label = true →
    x.method.name ≤ z.method.name

theorem Offered.unique (hx : t.Offered name receiver label x)
    (hy : t.Offered name receiver label y) : x = y :=
  hx.nearest.eq_of_name_eq hy.nearest <| String.le_antisymm
    (hx.first y hy.nearest hy.answers) (hy.first x hx.nearest hx.answers)

theorem offered_of_mem_completeMembers {i : Completion}
    (h : i ∈ t.completeMembers name start receiver true) (kind : i.kind = .method) :
    ∃ x, t.Offered name receiver i.name x ∧ i.owner = some x.owner ∧
      i.detail = some x.method.signature := by
  have method := ((mem_completeMembers_iff kind).mp h).1
  rw [mem_keepFirst_iff_find?, List.find?_flatMap] at method
  obtain ⟨before, x, after, eq, found, none⟩ := List.findSome?_eq_some_iff.mp method
  have item := List.mem_of_find?_eq_some found
  have listed : ∀ z, t.Nearest name receiver z → z ∈ before ∨ z = x ∨ z ∈ after := fun z hz => by
    simpa [eq] using mem_availableMethods_iff.mpr hz
  have sorted : (t.availableMethods name receiver).Pairwise
      fun a b => a.method.name ≤ b.method.name := pairwise_sortOn _ _
  rw [eq, List.pairwise_append, List.pairwise_cons] at sorted
  refine ⟨x, ⟨mem_availableMethods_iff.mp (by simp [eq]),
    mem_completions_iff.mp ⟨i, item, rfl⟩, fun z hz answers => ?_⟩, ?_⟩
  · rcases listed z hz with earlier | rfl | later
    · obtain ⟨j, hj, label⟩ := mem_completions_iff.mpr answers
      exact absurd label (by simpa using List.find?_eq_none.mp (none z earlier) j hj)
    · exact String.le_refl _
    · exact sorted.2.1.1 z later
  · obtain ⟨label, -, rfl⟩ := List.mem_map.mp item
    exact ⟨rfl, rfl⟩

/-- If all methods of the chain that answer to a label have one name, then the offered method is the
one that a call reaches. -/
theorem Offered.eq_of_one_name (hx : t.Offered name receiver label x)
    (called : t.resolveMethod? name label receiver = some y)
    (one : ∀ z ∈ t.chainMethods name receiver, z.method.answersTo label = true →
      z.method.name = y.method.name) : x = y := by
  rw [resolveMethod?_eq] at called
  obtain ⟨answers, before, after, eq, none⟩ := List.find?_eq_some_iff_append.mp called
  have nearest := nearest_iff_find?.mp hx.nearest
  have name : y.method.name = x.method.name :=
    (one x hx.nearest.mem hx.answers).symm
  rw [eq, List.find?_append, List.find?_cons_of_pos (by simp [name])] at nearest
  cases nearer : before.find? (·.method.name == x.method.name) with
  | none =>
    rw [nearer, Option.none_or] at nearest
    exact (Option.some.inj nearest).symm
  | some z =>
    rw [nearer, Option.some_or] at nearest
    obtain rfl := Option.some.inj nearest
    have silent := none z (List.mem_of_find?_eq_some nearer)
    simp [hx.answers] at silent

/-- A method item has the owner and the signature of the offered method of its label, and those of
the called method exactly when the two methods agree on them. The two are one method exactly when
the called one is the offered one, as it is if all methods that answer to the label have one
name. -/
theorem item_described_as_called_iff {i : Completion}
    (h : i ∈ t.completeMembers name start receiver true) (kind : i.kind = .method) :
    ∃ x y, t.Offered name receiver i.name x ∧
      t.resolveMethod? name i.name receiver = some y ∧
      (i.owner = some y.owner ∧ i.detail = some y.method.signature ↔
        x.owner = y.owner ∧ x.method.signature = y.method.signature) ∧
      (x = y ↔ t.Offered name receiver i.name y) ∧
      ((∀ z ∈ t.chainMethods name receiver, z.method.answersTo i.name = true →
        z.method.name = y.method.name) → x = y) := by
  obtain ⟨x, offered, owner, detail⟩ := offered_of_mem_completeMembers h kind
  obtain ⟨y, called⟩ := Option.isSome_iff_exists.mp
    (resolveMethod?_isSome_iff.mpr ⟨x, offered.nearest.mem, offered.answers⟩)
  refine ⟨x, y, offered, called, ?_, ?_, fun one => offered.eq_of_one_name called one⟩
  · rw [owner, detail, Option.some.injEq, Option.some.injEq]
  · exact ⟨fun same => same ▸ offered, offered.unique⟩

def crossedText : String :=
  "class Shape
def draw; end
alias paint draw
end
class Circle < Shape
def paint; end
end"

def crossedFile : StubFile where
  path := "shape.rb"
  namespaces :=
    [{ kind := .klass, name := "Shape", qualifiedName := "Shape", path := "shape.rb", line := 1,
       methods := [{ name := "draw", line := 2, aliases := ["paint"] }],
       aliases := [⟨"paint", "draw", .inst, 3⟩] },
     { kind := .klass, name := "Circle", qualifiedName := "Circle", superclass := some "Shape",
       path := "shape.rb", line := 5, methods := [{ name := "paint", line := 6 }] }]

theorem completeMembers_crossed : (ofFiles [crossedFile]).completeMembers "Circle" "" .inst true =
    [⟨"draw", .method, some "draw", some "Shape", none⟩,
      ⟨"paint", .method, some "draw", some "Shape", none⟩] := by cbv

theorem draw_item_described_as_called :
    ∃ i ∈ (ofFiles [crossedFile]).completeMembers "Circle" "" .inst true, i.name = "draw" ∧
      ∃ y, (ofFiles [crossedFile]).resolveMethod? "Circle" "draw" .inst = some y ∧
        i.owner = some y.owner ∧ i.detail = some y.method.signature := by
  have item : ⟨"draw", .method, some "draw", some "Shape", none⟩ ∈
      (ofFiles [crossedFile]).completeMembers "Circle" "" .inst true := by
    simp [completeMembers_crossed]
  obtain ⟨x, y, -, called, same, -, one⟩ := item_described_as_called_iff item rfl
  have reached : (ofFiles [crossedFile]).resolveMethod? "Circle" "draw" .inst =
      some ⟨"Shape", { name := "draw", line := 2, aliases := ["paint"] }⟩ := by cbv
  obtain rfl := Option.some.inj (called.symm.trans reached)
  have chain : (ofFiles [crossedFile]).chainMethods "Circle" .inst =
      [⟨"Circle", { name := "paint", line := 6 }⟩,
        ⟨"Shape", { name := "draw", line := 2, aliases := ["paint"] }⟩] := by cbv
  obtain rfl := one (by rw [chain]; decide)
  exact ⟨_, item, rfl, _, called, same.mpr ⟨rfl, rfl⟩⟩

/-- Completion describes the alias of the farther method, whose own name comes first, where a call
reaches the nearer one. -/
theorem crossed_alias_described_not_called :
    (StubFile.parse crossedText "shape.rb").toOption = some crossedFile ∧
      (∃ i ∈ (ofFiles [crossedFile]).completeMembers "Circle" "" .inst true,
        i.kind = .method ∧ i.name = "paint" ∧ i.owner = some "Shape" ∧ i.detail = some "draw") ∧
      (ofFiles [crossedFile]).resolveMethod? "Circle" "paint" .inst =
        some ⟨"Circle", { name := "paint", line := 6 }⟩ := by
  refine ⟨by decide, ?_, by cbv⟩
  rw [completeMembers_crossed]
  exact ⟨⟨"paint", .method, some "draw", some "Shape", none⟩, by simp, rfl, rfl, rfl, rfl⟩

end SymbolTable

end RubyIndex
