import RubyIndex.Proofs.EnclosingSuperclasses

/-! References of more than one segment. The whole path is looked for at every depth of the scope,
from the inside, and not only under the namespace that its head means there. So a path may be found
outside a namespace that its head should stop at, or inside it under one that is not declared. -/
namespace RubyIndex

def referenceAt (segments : List String) (name : String) (depth : Nat) : String :=
  joinSegments (segments.take depth ++ [name])

theorem referenceAt_zero (segments : List String) (name : String) :
    referenceAt segments name 0 = name := by simp [referenceAt, joinSegments]

theorem candidates_eq_referenceAt (segments : List String) (name : String) :
    candidates segments name =
      ((List.range (segments.length + 1)).reverse).map (referenceAt segments name) := rfl

theorem find?_range_reverse_eq_some_iff {f : Nat → String} {p : String → Bool} {count : Nat}
    {r : String} : ((List.range count).reverse.map f).find? p = some r ↔
      ∃ d < count, f d = r ∧ p (f d) = true ∧ ∀ e, d < e → e < count → p (f e) = false := by
  constructor
  · induction count with
    | zero => simp
    | succ count ih =>
      rw [List.range_succ, List.reverse_append, List.reverse_singleton, List.singleton_append,
        List.map_cons]
      intro found
      by_cases last : p (f count) = true
      · rw [List.find?_cons_of_pos last] at found
        exact ⟨count, by omega, Option.some.inj found, last, fun e after before => by omega⟩
      · rw [List.find?_cons_of_neg last] at found
        obtain ⟨d, inside, name, passes, further⟩ := ih found
        refine ⟨d, by omega, name, passes, fun e after before => ?_⟩
        by_cases same : e = count
        · rw [same]
          simpa using last
        · exact further e after (by omega)
  · rintro ⟨d, inside, rfl, passes, last⟩
    exact find?_range_reverse inside passes last

/-- The candidates for a path are the paths under the candidates for its head. -/
theorem referenceAt_path (segments : List String) (head tail : String) (depth : Nat) :
    referenceAt segments (head ++ "::" ++ tail) depth =
      referenceAt segments head depth ++ "::" ++ tail := by
  unfold referenceAt
  by_cases outside : segments.take depth = []
  · simp [outside, joinSegments]
  · rw [joinSegments_concat outside, joinSegments_concat outside]
    simp only [String.append_assoc]

namespace SymbolTable

variable {t : SymbolTable} {name head tail r h : String} {scope : Option String} {depth : Nat}

/-- A reference is declared at a depth of its scope, and not further inside. -/
structure InnermostAt (t : SymbolTable) (segments : List String) (name : String) (depth : Nat) :
    Prop where
  inside : depth ≤ segments.length
  declared : t.has (referenceAt segments name depth) = true
  innermost : ∀ d, depth < d → d ≤ segments.length → t.has (referenceAt segments name d) = false

theorem resolve?_relative (relative : absolute? name = none) :
    t.resolve? name scope = (candidates (scopeSegments scope) name).find? t.has := by
  rw [resolve?, relative]

theorem resolve?_eq_some_iff (relative : absolute? name = none) :
    t.resolve? name scope = some r ↔
      ∃ depth, t.InnermostAt (scopeSegments scope) name depth ∧
        referenceAt (scopeSegments scope) name depth = r := by
  rw [resolve?_relative relative, candidates_eq_referenceAt, find?_range_reverse_eq_some_iff]
  constructor
  · rintro ⟨d, inside, rfl, declared, innermost⟩
    exact ⟨d, ⟨by omega, declared, fun e after before => innermost e after (by omega)⟩, rfl⟩
  · rintro ⟨d, ⟨inside, declared, innermost⟩, rfl⟩
    exact ⟨d, by omega, rfl, declared, fun e after before => innermost e after (by omega)⟩

theorem resolve?_eq_none_iff (relative : absolute? name = none) :
    t.resolve? name scope = none ↔
      ∀ d ≤ (scopeSegments scope).length,
        t.has (referenceAt (scopeSegments scope) name d) = false := by
  rw [resolve?_relative relative, candidates_eq_referenceAt, List.find?_eq_none]
  simp only [List.map_reverse, List.mem_reverse, List.mem_map, List.mem_range, Nat.lt_succ_iff,
    Bool.not_eq_true, forall_exists_index, and_imp, forall_apply_eq_imp_iff₂]

/-- What begins with a path that is not absolute is not absolute either. -/
theorem absolute?_head (relative : absolute? (head ++ "::" ++ tail) = none) :
    absolute? head = none := by
  cases root : absolute? head with
  | none => rfl
  | some rest =>
    obtain rfl := absolute?_eq_some_iff.mp root
    have whole : absolute? ("::" ++ rest ++ "::" ++ tail) = some (rest ++ "::" ++ tail) := by
      rw [absolute?_eq_some_iff]
      simp only [String.append_assoc]
    rw [whole] at relative
    cases relative

/-- A relative path with a head that alone means a namespace of the table. The path is looked for
under every candidate for the head. It means what it names in the namespace of the head, or nothing,
exactly if no candidate further inside, which is not declared itself, has the tail, and no candidate
further outside has it in place of the namespace of the head. -/
theorem resolve?_path_through_head_iff (relative : absolute? (head ++ "::" ++ tail) = none)
    (found : t.resolve? head scope = some h) :
    ∃ depth, t.InnermostAt (scopeSegments scope) head depth ∧
      referenceAt (scopeSegments scope) head depth = h ∧
      t.resolve? (head ++ "::" ++ tail) scope =
        ((candidates (scopeSegments scope) head).map (· ++ "::" ++ tail)).find? t.has ∧
      (t.resolve? (head ++ "::" ++ tail) scope = some (h ++ "::" ++ tail) ∨
          t.resolve? (head ++ "::" ++ tail) scope = none ↔
        (∀ d, depth < d → d ≤ (scopeSegments scope).length →
            t.has (referenceAt (scopeSegments scope) head d ++ "::" ++ tail) = false) ∧
          (t.has (h ++ "::" ++ tail) = true ∨
            ∀ d < depth,
              t.has (referenceAt (scopeSegments scope) head d ++ "::" ++ tail) = false)) := by
  obtain ⟨depth, innermost, rfl⟩ := (resolve?_eq_some_iff (absolute?_head relative)).mp found
  have path (d : Nat) := referenceAt_path (scopeSegments scope) head tail d
  refine ⟨depth, innermost, rfl, ?_, ?_, ?_⟩
  · rw [resolve?_relative relative, candidates_eq_referenceAt, candidates_eq_referenceAt,
      List.map_map]
    simp only [Function.comp_def, ← path]
  · rintro (own | nothing)
    · obtain ⟨d, ⟨inside, declared, further⟩, same⟩ := (resolve?_eq_some_iff relative).mp own
      rw [path] at declared same
      have name : referenceAt (scopeSegments scope) head d =
          referenceAt (scopeSegments scope) head depth := by
        simpa using same
      -- The head is not declared further inside, so that the path is found no further inside.
      have outer : d ≤ depth := by
        by_contra deeper
        have absent := innermost.innermost d (by omega) inside
        rw [name, innermost.declared] at absent
        cases absent
      refine ⟨fun e after before => ?_, .inl (name ▸ declared)⟩
      rw [← path]
      exact further e (by omega) before
    · have absent := (resolve?_eq_none_iff relative).mp nothing
      simp only [path] at absent
      exact ⟨fun d _ inside => absent d inside,
        .inr fun d before => absent d (Nat.le_trans (Nat.le_of_lt before) innermost.inside)⟩
  · rintro ⟨inner, outer⟩
    simp only [← path] at inner outer ⊢
    by_cases own : t.has (referenceAt (scopeSegments scope) (head ++ "::" ++ tail) depth) = true
    · exact .inl ((resolve?_eq_some_iff relative).mpr
        ⟨depth, ⟨innermost.inside, own, inner⟩, rfl⟩)
    · refine .inr ((resolve?_eq_none_iff relative).mpr fun d inside => ?_)
      rcases Nat.lt_trichotomy d depth with before | rfl | after
      · exact outer.resolve_left own d before
      · simpa using own
      · exact inner d after inside

def arcText : String :=
  "module Shapes\nmodule Circle; end\nmodule Canvas; end\nend\n" ++
    "module Circle\nclass Arc; end\nend"

def arcFile : StubFile where
  path := "arc.rb"
  namespaces :=
    [{ kind := .modul, name := "Shapes", qualifiedName := "Shapes", path := "arc.rb", line := 1 },
     { kind := .modul, name := "Circle", qualifiedName := "Shapes::Circle", path := "arc.rb",
       line := 2 },
     { kind := .modul, name := "Canvas", qualifiedName := "Shapes::Canvas", path := "arc.rb",
       line := 3 },
     { kind := .modul, name := "Circle", qualifiedName := "Circle", path := "arc.rb", line := 5 },
     { kind := .klass, name := "Arc", qualifiedName := "Circle::Arc", path := "arc.rb",
       line := 6 }]

def arcsTable : SymbolTable :=
  ofFiles [arcFile, { path := "arcs.rb", namespaces :=
    [{ kind := .klass, name := "Arc", qualifiedName := "Shapes::Circle::Arc",
       path := "arcs.rb" }] }]

theorem arc_found_through_head :
    arcsTable.resolve? "Circle" (some "Shapes::Canvas") = some "Shapes::Circle" ∧
      (arcsTable.resolve? ("Circle" ++ "::" ++ "Arc") (some "Shapes::Canvas") =
          some ("Shapes::Circle" ++ "::" ++ "Arc") ∨
        arcsTable.resolve? ("Circle" ++ "::" ++ "Arc") (some "Shapes::Canvas") = none) := by
  have found : arcsTable.resolve? "Circle" (some "Shapes::Canvas") = some "Shapes::Circle" := by
    decide
  have relative : absolute? ("Circle" ++ "::" ++ "Arc") = none := by decide
  obtain ⟨depth, innermost, name, -, through⟩ := resolve?_path_through_head_iff relative found
  have scope : scopeSegments (some "Shapes::Canvas") = ["Shapes", "Canvas"] := by decide
  rw [scope] at innermost name through
  have first : ∀ d ≤ 2, referenceAt ["Shapes", "Canvas"] "Circle" d = "Shapes::Circle" → d = 1 := by
    decide
  obtain rfl : depth = 1 := first depth innermost.inside name
  have inner : ∀ d ≤ 2, 1 < d →
      arcsTable.has (referenceAt ["Shapes", "Canvas"] "Circle" d ++ "::" ++ "Arc") = false := by
    decide
  exact ⟨found, through.mpr ⟨fun d after inside => inner d inside after, .inl (by decide)⟩⟩

/-- The arc of the circle outside is the arc of the circle in the module, when it has none, for a
reference that is written in the module. -/
theorem arc_found_outside_head :
    (StubFile.parse arcText "arc.rb").toOption = some arcFile ∧
      (ofFiles [arcFile]).resolve? "Circle" (some "Shapes::Canvas") = some "Shapes::Circle" ∧
      (ofFiles [arcFile]).resolve? ("Circle" ++ "::" ++ "Arc") (some "Shapes::Canvas") =
        some "Circle::Arc" := by
  refine ⟨?_, ?_, ?_⟩
  · decide
  · decide
  · decide

end SymbolTable

end RubyIndex
