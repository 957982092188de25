import Mathlib.Data.List.Basic
import RubyIndex.Proofs.HeaderNames
import RubyIndex.SymbolTable.Resolve

/-! The segments of a qualified name. The segments around the last one are those of the name that
they make, and the scope of a namespace is read back as them. -/
namespace RubyIndex

variable {current rest name : List Char} {c : Char}

/-- A character that is not the first of two colons belongs to the segment. -/
theorem segmentsOfName_cons (apart : ¬ (c = ':' ∧ rest.head? = some ':')) :
    segmentsOfName current (c :: rest) = segmentsOfName (c :: current) rest := by
  rw [segmentsOfName]
  rintro more rfl rfl
  exact apart ⟨rfl, rfl⟩

/-- A name is one segment, or it has a first one that stays the first whatever follows its two
colons. -/
theorem segmentsOfName_cases (current name : List Char) :
    segmentsOfName current name = [current.reverse ++ name] ∨
      ∃ first after, name = first ++ ':' :: ':' :: after ∧
        segmentsOfName current first = [current.reverse ++ first] ∧
        ∀ more, segmentsOfName current (first ++ ':' :: ':' :: more) =
          (current.reverse ++ first) :: segmentsOfName [] more := by
  fun_induction segmentsOfName current name with
  | case1 current => exact .inl (by simp)
  | case2 current rest ih =>
    exact .inr ⟨[], rest, rfl, by simp [segmentsOfName], fun more => by simp [segmentsOfName]⟩
  | case3 current c rest other ih =>
    rcases ih with single | ⟨first, after, rfl, alone, whatever⟩
    · exact .inl (by simp [single])
    · -- The colons after the segment cannot be told from a colon at its end, so it has none there.
      have apart (more : List Char) :
          ¬ (c = ':' ∧ (first ++ ':' :: more).head? = some ':') := by
        rintro ⟨rfl, colon⟩
        cases first with
        | nil => exact other _ rfl rfl
        | cons d first =>
          obtain rfl : d = ':' := by simpa using colon
          exact other _ rfl rfl
      have lone : ¬ (c = ':' ∧ first.head? = some ':') := by
        rintro ⟨rfl, colon⟩
        obtain ⟨first, rfl⟩ := List.head?_eq_some_iff.mp colon
        exact apart [] ⟨rfl, rfl⟩
      refine .inr ⟨c :: first, after, rfl, ?_, fun more => ?_⟩
      · rw [segmentsOfName_cons lone, alone]
        simp
      · rw [List.cons_append, segmentsOfName_cons (apart _), whatever]
        simp

theorem segmentsOfName_ne_nil (current name : List Char) : segmentsOfName current name ≠ [] := by
  rcases segmentsOfName_cases current name with single | ⟨first, after, rfl, -, whatever⟩
  · simp [single]
  · simp [whatever]

/-- All segments but the last are the segments of the name that they make. -/
theorem segmentsOfName_intercalate_dropLast (name : List Char)
    (nested : (segmentsOfName [] name).dropLast ≠ []) :
    segmentsOfName [] ([':', ':'].intercalate (segmentsOfName [] name).dropLast) =
      (segmentsOfName [] name).dropLast := by
  rcases segmentsOfName_cases [] name with single | ⟨first, after, rfl, alone, whatever⟩
  · simp [single] at nested
  · rw [whatever, List.reverse_nil, List.nil_append,
      List.dropLast_cons_of_ne_nil (segmentsOfName_ne_nil [] after)]
    by_cases last : (segmentsOfName [] after).dropLast = []
    · simpa [last] using alone
    · obtain ⟨second, others, eq⟩ := List.exists_cons_of_ne_nil last
      have ih := segmentsOfName_intercalate_dropLast after last
      rw [eq] at ih ⊢
      rw [List.intercalate_cons_cons]
      simp only [List.append_assoc, List.cons_append, List.nil_append]
      rw [whatever, ih]
      rfl
termination_by name.length

section Names

variable {name first : String} {segments : List String} {n : Namespace}

theorem nameSegments_ne_nil (name : String) : nameSegments name ≠ [] := by
  simpa [nameSegments] using segmentsOfName_ne_nil [] name.toList

theorem nameSegments_dropLast (nested : (nameSegments name).dropLast ≠ []) :
    nameSegments (joinSegments (nameSegments name).dropLast) = (nameSegments name).dropLast := by
  have colons : "::".toList = [':', ':'] := rfl
  have chars : (nameSegments name).dropLast =
      (segmentsOfName [] name.toList).dropLast.map String.ofList := List.map_dropLast.symm
  rw [chars, Ne, List.map_eq_nil_iff] at nested
  have read := segmentsOfName_intercalate_dropLast name.toList nested
  rw [chars]
  rw [nameSegments, joinSegments, String.toList_intercalate, colons, List.map_map]
  have texts : ((segmentsOfName [] name.toList).dropLast.map (String.toList ∘ String.ofList)) =
      (segmentsOfName [] name.toList).dropLast := by simp [Function.comp_def]
  rw [texts, read]

theorem capitalized_joinSegments (h : Capitalized first) (rest : List String) :
    Capitalized (joinSegments (first :: rest)) := by
  obtain ⟨c, more, eq, capital⟩ := h
  have colons : "::".toList = [':', ':'] := rfl
  cases rest with
  | nil => exact ⟨c, more, by simp [joinSegments, eq], capital⟩
  | cons second rest =>
    refine ⟨c, more ++ [':', ':'] ++
      [':', ':'].intercalate ((second :: rest).map String.toList), ?_, capital⟩
    rw [joinSegments, String.toList_intercalate, colons, List.map_cons, List.map_cons,
      List.intercalate_cons_cons, eq]
    simp

/-- The first segment of a name begins as the name does. -/
theorem capitalized_head_nameSegments (h : Capitalized name) :
    nameSegments name = first :: segments → Capitalized first := by
  obtain ⟨c, more, eq, capital⟩ := h
  intro split
  rcases segmentsOfName_cases [] name.toList with single | ⟨start, after, chars, -, whatever⟩
  · rw [nameSegments, single] at split
    obtain ⟨rfl, -⟩ := List.cons.inj split
    exact ⟨c, more, by simpa using eq, capital⟩
  · rw [nameSegments, chars, whatever] at split
    obtain ⟨rfl, -⟩ := List.cons.inj split
    cases start with
    | nil =>
      rw [eq] at chars
      obtain rfl : c = ':' := (List.cons.inj chars).1
      exact absurd capital (by decide)
    | cons d start =>
      rw [eq] at chars
      obtain rfl : c = d := (List.cons.inj chars).1
      exact ⟨c, start, by simp, capital⟩

theorem scopeSegments_some (h : Capitalized name) :
    scopeSegments (some name) = nameSegments name := by
  have filled : name ≠ "" := by
    rintro rfl
    obtain ⟨c, more, chars, -⟩ := h
    simp at chars
  rw [scopeSegments, if_neg filled, dropRoot_of_capitalized h]

/-- The enclosing names of a namespace, as resolving goes through them. -/
theorem scopeSegments_scope (named : Capitalized n.qualifiedName) :
    scopeSegments n.scope = (nameSegments n.qualifiedName).dropLast := by
  by_cases top : (nameSegments n.qualifiedName).dropLast = []
  · have single : n.isTopLevel = true := by
      obtain ⟨first, rest, eq⟩ := List.exists_cons_of_ne_nil (nameSegments_ne_nil n.qualifiedName)
      cases rest with
      | nil => simp [Namespace.isTopLevel, eq]
      | cons second rest => simp [eq] at top
    rw [Namespace.scope, if_pos single, top]
    rfl
  · obtain ⟨first, rest, eq⟩ := List.exists_cons_of_ne_nil (nameSegments_ne_nil n.qualifiedName)
    have capital := capitalized_head_nameSegments named eq
    cases rest with
    | nil => simp [eq] at top
    | cons second rest =>
      have nested : n.isTopLevel = false := by simp [Namespace.isTopLevel, eq]
      have read := nameSegments_dropLast top
      have scope : Capitalized (joinSegments (nameSegments n.qualifiedName).dropLast) := by
        rw [eq, List.dropLast_cons_of_ne_nil (List.cons_ne_nil second rest)]
        exact capitalized_joinSegments capital _
      rw [Namespace.scope, nested, if_neg Bool.false_ne_true, scopeSegments_some scope, read]

end Names

end RubyIndex
