import Mathlib.Data.Nat.Find
import RubyIndex.Proofs.DeclarationLog
import RubyIndex.Proofs.InheritedLookup
import RubyIndex.Proofs.KeyOrder
import RubyIndex.Proofs.NameSegments
import RubyIndex.Proofs.ReadNamespaces

/-! Superclasses by relative names. The superclass of a class is looked for when the table is
complete, so that the class itself may be found. A class with the name of the superclass that is
meant, in a scope inside the one of that superclass, is its own superclass and loses the ancestors
it should have. -/
namespace RubyIndex

/-- The last of the first values of a function that passes a test is found first from the end. -/
theorem find?_range_reverse {f : Nat → String} {p : String → Bool} {count d : Nat}
    (inside : d < count) (passes : p (f d) = true)
    (last : ∀ e, d < e → e < count → p (f e) = false) :
    ((List.range count).reverse.map f).find? p = some (f d) := by
  induction count with
  | zero => omega
  | succ count ih =>
    rw [List.range_succ, List.reverse_append, List.reverse_singleton, List.singleton_append,
      List.map_cons]
    by_cases same : d = count
    · subst same
      exact List.find?_cons_of_pos passes
    · rw [List.find?_cons_of_neg (by simp [last count (by omega) (by omega)])]
      exact ih (by omega) fun e after before => last e after (by omega)

theorem joinSegments_concat {segments : List String} (filled : segments ≠ []) (s : String) :
    joinSegments (segments ++ [s]) = joinSegments segments ++ "::" ++ s := by
  induction segments with
  | nil => exact absurd rfl filled
  | cons first rest ih =>
    cases rest with
    | nil => simp [joinSegments, String.intercalate_cons_cons]
    | cons second rest =>
      have ih := ih (List.cons_ne_nil second rest)
      unfold joinSegments at ih ⊢
      rw [List.cons_append, List.cons_append, String.intercalate_cons_cons, ← List.cons_append, ih,
        String.intercalate_cons_cons]
      simp only [String.append_assoc]

namespace Namespace

def reference (n : Namespace) (s : String) (depth : Nat) : String :=
  joinSegments ((nameSegments n.qualifiedName).take depth ++ [s])

/-- Whether a reference has the name of the namespace itself further inside than at a depth. -/
def Hides (n : Namespace) (s : String) (depth : Nat) : Prop :=
  ∃ d, depth < d ∧ d < (nameSegments n.qualifiedName).length ∧ n.reference s d = n.qualifiedName

variable {n : Namespace} {s : String} {depth : Nat}

theorem candidates_eq (n : Namespace) (s : String) :
    candidates (nameSegments n.qualifiedName).dropLast s =
      ((List.range (nameSegments n.qualifiedName).length).reverse).map (n.reference s) := by
  have some_segment := List.length_pos_iff.mpr (nameSegments_ne_nil n.qualifiedName)
  have count : (nameSegments n.qualifiedName).dropLast.length + 1 =
      (nameSegments n.qualifiedName).length := by
    rw [List.length_dropLast]
    omega
  unfold candidates
  rw [count]
  refine List.map_congr_left fun d hd => ?_
  have inside : d < (nameSegments n.qualifiedName).length := by simpa using hd
  rw [reference, List.dropLast_eq_take, List.take_take, Nat.min_eq_left (by omega)]

/-- A namespace only hides what its own name ends with. -/
theorem Hides.suffix (h : n.Hides s depth) : ("::" ++ s).toList <:+ n.qualifiedName.toList := by
  obtain ⟨d, after, inside, same⟩ := h
  have filled : (nameSegments n.qualifiedName).take d ≠ [] := by
    rw [Ne, List.take_eq_nil_iff]
    have := nameSegments_ne_nil n.qualifiedName
    rintro (rfl | none)
    · omega
    · exact this none
  have whole : n.qualifiedName =
      joinSegments ((nameSegments n.qualifiedName).take d) ++ "::" ++ s :=
    same.symm.trans (joinSegments_concat filled s)
  refine ⟨(joinSegments ((nameSegments n.qualifiedName).take d)).toList, ?_⟩
  simpa using (congrArg String.toList whole).symm

end Namespace

namespace SymbolTable

variable {t : SymbolTable} {n : Namespace} {s : String} {depth : Nat} {files : List StubFile}

/-- What a relative reference means if it does not mean the namespace that it is written for: the
innermost other one. -/
structure InnermostOther (t : SymbolTable) (n : Namespace) (s : String) (depth : Nat) : Prop where
  enclosing : depth < (nameSegments n.qualifiedName).length
  declared : t.has (n.reference s depth) = true
  other : n.reference s depth ≠ n.qualifiedName
  innermost : ∀ d, depth < d → d < (nameSegments n.qualifiedName).length →
    t.has (n.reference s d) = true → n.reference s d = n.qualifiedName

theorem exists_innermostOther (meant : ∃ d < (nameSegments n.qualifiedName).length,
    t.has (n.reference s d) = true ∧ n.reference s d ≠ n.qualifiedName) :
    ∃ depth, t.InnermostOther n s depth := by
  classical
  obtain ⟨d, inside, fits⟩ := meant
  have bound : d ≤ (nameSegments n.qualifiedName).length - 1 := by omega
  let P (d : Nat) : Prop := t.has (n.reference s d) = true ∧ n.reference s d ≠ n.qualifiedName
  have greatest := Nat.findGreatest_spec (P := P) bound fits
  have le := Nat.findGreatest_le (P := P) ((nameSegments n.qualifiedName).length - 1)
  refine ⟨Nat.findGreatest P ((nameSegments n.qualifiedName).length - 1), by omega, greatest.1,
    greatest.2, ?_⟩
  intro e after before declared
  by_contra other
  exact Nat.findGreatest_is_greatest after (by omega) ⟨declared, other⟩

theorem resolve?_scope_eq (named : Capitalized n.qualifiedName) (relative : absolute? s = none)
    (inside : depth < (nameSegments n.qualifiedName).length)
    (declared : t.has (n.reference s depth) = true)
    (last : ∀ d, depth < d → d < (nameSegments n.qualifiedName).length →
      t.has (n.reference s d) = false) :
    t.resolve? s n.scope = some (n.reference s depth) := by
  rw [resolve?, relative]
  change (candidates (scopeSegments n.scope) s).find? t.has = _
  rw [scopeSegments_scope named, n.candidates_eq]
  exact find?_range_reverse inside declared last

theorem superclassOf_eq_resolve (isClass : n.isClass = true)
    (notRoot : n.qualifiedName ≠ rootClass) (written : n.superclass = some s) :
    t.superclassOf n = some ((t.resolve? s n.scope).getD s) := by
  simp [superclassOf, isClass, notRoot, written]

theorem InnermostOther.resolve?_eq (h : t.InnermostOther n s depth)
    (named : Capitalized n.qualifiedName) (relative : absolute? s = none)
    (clear : ¬ n.Hides s depth) : t.resolve? s n.scope = some (n.reference s depth) := by
  refine resolve?_scope_eq named relative h.enclosing h.declared fun d after before => ?_
  by_contra declared
  have declared : t.has (n.reference s d) = true := by simpa using declared
  exact clear ⟨d, after, before, h.innermost d after before declared⟩

/-- The innermost reference that has the name of the namespace is found. -/
theorem InnermostOther.resolve?_eq_self (h : t.InnermostOther n s depth)
    (named : Capitalized n.qualifiedName) (relative : absolute? s = none)
    (own : t.has n.qualifiedName = true) (hidden : n.Hides s depth) :
    t.resolve? s n.scope = some n.qualifiedName := by
  obtain ⟨d, after, before, same⟩ := hidden
  let P (d : Nat) : Prop := n.reference s d = n.qualifiedName
  have bound : d ≤ (nameSegments n.qualifiedName).length - 1 := by omega
  have greatest := Nat.findGreatest_spec (P := P) bound same
  have ge := Nat.le_findGreatest (P := P) bound same
  have le := Nat.findGreatest_le (P := P) ((nameSegments n.qualifiedName).length - 1)
  have last : ∀ e, Nat.findGreatest P ((nameSegments n.qualifiedName).length - 1) < e →
      e < (nameSegments n.qualifiedName).length → t.has (n.reference s e) = false := by
    intro e further inside
    by_contra declared
    have declared : t.has (n.reference s e) = true := by simpa using declared
    have again := h.innermost e (by omega) inside declared
    exact Nat.findGreatest_is_greatest further (by omega) again
  have found : t.has (n.reference s
      (Nat.findGreatest P ((nameSegments n.qualifiedName).length - 1))) = true := by
    rw [greatest]
    exact own
  rw [resolve?_scope_eq named relative (by omega) found last, greatest]

theorem find?_of_mem (member : n ∈ (ofFiles files).namespaces) :
    (ofFiles files).find? n.qualifiedName = some n := by
  have entry := filter_key_eq_toList_find? (logged_ofFiles files).distinct n.qualifiedName
  have listed : n ∈ (ofFiles files).namespaces.filter (·.qualifiedName == n.qualifiedName) :=
    List.mem_filter.mpr ⟨member, by simp⟩
  rw [entry] at listed
  exact Option.mem_toList.mp listed

theorem capitalized_of_has (parsed : ∀ f ∈ files, f.Parsed) {name : String}
    (h : (ofFiles files).has name = true) : Capitalized name := by
  have listed := mem_names_iff.mpr h
  rw [(logged_ofFiles files).names, mem_keepFirst_id] at listed
  obtain ⟨d, hd, rfl⟩ := List.mem_map.mp listed
  obtain ⟨f, hf, hd⟩ := List.mem_flatMap.mp hd
  exact ((parsed f hf).read d hd).named

/-- A class that is its own superclass and mixes in nothing is all that it inherits from. -/
theorem ancestors_of_own_superclass {name : String} (found : t.find? (dropRoot name) = some n)
    (alone : n.prepended = [] ∧ n.included = [])
    (own : t.superclassOf n = some (dropRoot name)) : t.ancestors name = [dropRoot name] := by
  have visits : t.visits n = [.list (dropRoot name), .enter (dropRoot name)] := by
    simp [SymbolTable.visits, alone, own, qualifiedName_of_find? found]
  rw [ancestors, walk_enter_found (by simp) found, visits, List.append_nil, walk, walk,
    dif_pos (by simp), walk]

/-- A class whose superclass is written as a relative name, where a namespace other than the class
has that name in an enclosing scope. The superclass is the innermost such namespace, and the class
has its ancestors, unless the class itself has the name further inside: then the class is its own
superclass, and if it mixes in nothing it has no other ancestors. -/
theorem superclassOf_innermost_iff (parsed : ∀ f ∈ files, f.Parsed)
    (member : n ∈ (ofFiles files).namespaces) (isClass : n.isClass = true)
    (notRoot : n.qualifiedName ≠ rootClass) (written : n.superclass = some s)
    (relative : absolute? s = none)
    (meant : ∃ d < (nameSegments n.qualifiedName).length,
      (ofFiles files).has (n.reference s d) = true ∧ n.reference s d ≠ n.qualifiedName) :
    ∃ depth, (ofFiles files).InnermostOther n s depth ∧
      ((ofFiles files).superclassOf n = some (n.reference s depth) ↔ ¬ n.Hides s depth) ∧
      ((ofFiles files).superclassOf n = some n.qualifiedName ↔ n.Hides s depth) ∧
      (n.Hides s depth → ("::" ++ s).toList <:+ n.qualifiedName.toList) ∧
      (¬ n.Hides s depth → (ofFiles files).ancestors (n.reference s depth) ⊆
        (ofFiles files).ancestors n.qualifiedName) ∧
      (n.Hides s depth → n.prepended = [] ∧ n.included = [] →
        (ofFiles files).ancestors n.qualifiedName = [n.qualifiedName]) := by
  obtain ⟨depth, innermost⟩ := exists_innermostOther meant
  have found := find?_of_mem member
  have own : (ofFiles files).has n.qualifiedName = true := by rw [has, found]; rfl
  have named := capitalized_of_has parsed own
  have superclass := superclassOf_eq_resolve (t := ofFiles files) isClass notRoot written
  have clear (h : ¬ n.Hides s depth) :
      (ofFiles files).superclassOf n = some (n.reference s depth) := by
    rw [superclass, innermost.resolve?_eq named relative h, Option.getD_some]
  have hidden (h : n.Hides s depth) :
      (ofFiles files).superclassOf n = some n.qualifiedName := by
    rw [superclass, innermost.resolve?_eq_self named relative own h, Option.getD_some]
  refine ⟨depth, innermost, ⟨?_, clear⟩, ⟨?_, hidden⟩, Namespace.Hides.suffix, ?_, ?_⟩
  · intro same h
    exact innermost.other (Option.some.inj (same.symm.trans (hidden h)))
  · intro same
    by_contra h
    exact innermost.other (Option.some.inj ((clear h).symm.trans same))
  · intro h
    have outer := capitalized_of_has parsed innermost.declared
    apply ancestors_subset
    rw [dropRoot_of_capitalized named, dropRoot_of_capitalized outer]
    exact links_superclass found (clear h)
  · intro h alone
    have root := dropRoot_of_capitalized named
    rw [← root] at found
    have inherited := ancestors_of_own_superclass found alone (by rw [root]; exact hidden h)
    rw [inherited, root]

def drawText : String :=
  "module Shapes\nclass Error; end\nclass Circle\nclass DrawError < Error; end\nend\nend"

def drawError : Namespace :=
  { kind := .klass, name := "DrawError", qualifiedName := "Shapes::Circle::DrawError",
    superclass := some "Error", path := "shapes.rb", line := 4 }

def drawFile : StubFile where
  path := "shapes.rb"
  namespaces :=
    [{ kind := .modul, name := "Shapes", qualifiedName := "Shapes", path := "shapes.rb",
       line := 1 },
     { kind := .klass, name := "Error", qualifiedName := "Shapes::Error", path := "shapes.rb",
       line := 2 },
     { kind := .klass, name := "Circle", qualifiedName := "Shapes::Circle", path := "shapes.rb",
       line := 3 },
     drawError]

theorem draw_error_inherits : (ofFiles [drawFile]).superclassOf drawError = some "Shapes::Error" ∧
    (ofFiles [drawFile]).ancestors "Shapes::Error" ⊆
      (ofFiles [drawFile]).ancestors "Shapes::Circle::DrawError" := by
  have parsed : ∀ f ∈ [drawFile], f.Parsed := by
    intro f hf
    obtain rfl := List.mem_singleton.mp hf
    have read : (StubFile.parse drawText "shapes.rb").toOption = some drawFile := by decide
    exact ⟨_, _, toOption_eq_some_iff.mp read⟩
  have member : drawError ∈ (ofFiles [drawFile]).namespaces := by decide
  have meant : ∃ d < (nameSegments drawError.qualifiedName).length,
      (ofFiles [drawFile]).has (drawError.reference "Error" d) = true ∧
        drawError.reference "Error" d ≠ drawError.qualifiedName := ⟨1, by decide⟩
  obtain ⟨depth, innermost, superclass, -, suffix, inherits, -⟩ :=
    superclassOf_innermost_iff parsed member rfl (by decide) rfl (by decide) meant
  have clear : ¬ drawError.Hides "Error" depth :=
    fun hidden => absurd (suffix hidden) (by decide)
  have computed : (ofFiles [drawFile]).superclassOf drawError = some "Shapes::Error" := by
    decide
  have name : drawError.reference "Error" depth = "Shapes::Error" :=
    Option.some.inj ((superclass.mpr clear).symm.trans computed)
  exact ⟨computed, name ▸ inherits clear⟩

def errorText : String := "class Error; end\nmodule M\nclass Error < Error; end\nend"

def errorFile : StubFile where
  path := "error.rb"
  namespaces :=
    [{ kind := .klass, name := "Error", qualifiedName := "Error", path := "error.rb", line := 1 },
     { kind := .modul, name := "M", qualifiedName := "M", path := "error.rb", line := 2 },
     { kind := .klass, name := "Error", qualifiedName := "M::Error", superclass := some "Error",
       path := "error.rb", line := 3 }]

/-- The class in the module is its own superclass, and inherits nothing. -/
theorem error_is_own_superclass :
    (StubFile.parse errorText "error.rb").toOption = some errorFile ∧
      (ofFiles [errorFile]).has "Error" = true ∧
      (ofFiles [errorFile]).superclassOf errorFile.namespaces[2] = some "M::Error" ∧
      (ofFiles [errorFile]).ancestors "M::Error" = ["M::Error"] := by
  have root : dropRoot "M::Error" = "M::Error" := by decide
  have found : (ofFiles [errorFile]).find? (dropRoot "M::Error") =
      some errorFile.namespaces[2] := by
    rw [root]
    decide
  have own : (ofFiles [errorFile]).superclassOf errorFile.namespaces[2] = some "M::Error" := by
    decide
  refine ⟨by decide, by decide, own, ?_⟩
  rw [ancestors_of_own_superclass found ⟨rfl, rfl⟩ (by rw [root]; exact own), root]

end SymbolTable

end RubyIndex
