import Mathlib.Data.List.Basic
import RubyIndex.Proofs.BlockTree
import RubyIndex.Proofs.StatementForms

/-! The names that header lines give to classes and modules. Each begins with a capital, whether it
is written alone, under the name of an open body or from the root. -/
namespace RubyIndex

def Capitalized (name : String) : Prop :=
  ∃ c rest, name.toList = c :: rest ∧ Text.isCapital c = true

theorem capitalized_append {first : String} (h : Capitalized first) (more : String) :
    Capitalized (first ++ more) := by
  obtain ⟨c, rest, eq, capital⟩ := h
  exact ⟨c, rest ++ more.toList, by simp [eq], capital⟩

theorem absolute?_eq_some_iff {name rest : String} :
    absolute? name = some rest ↔ name = "::" ++ rest := by
  unfold absolute?
  constructor
  · intro root
    obtain ⟨chars, cut, rfl⟩ := Option.map_eq_some_iff.mp root
    apply String.toList_inj.mp
    simpa using (List.isPrefixOf?_eq_some_iff_append_eq.mp cut).symm
  · rintro rfl
    have cut : "::".toList.isPrefixOf? ("::" ++ rest).toList = some rest.toList := by
      rw [List.isPrefixOf?_eq_some_iff_append_eq, String.toList_append]
    rw [cut, Option.map_some, String.ofList_toList]

theorem absolute?_of_capitalized {name : String} (h : Capitalized name) :
    absolute? name = none := by
  obtain ⟨c, rest, eq, capital⟩ := h
  have letter : ':' ≠ c := by
    rintro rfl
    exact absurd capital (by decide)
  simp [absolute?, List.isPrefixOf?, eq, letter]

theorem dropRoot_of_capitalized {name : String} (h : Capitalized name) : dropRoot name = name := by
  rw [dropRoot, absolute?_of_capitalized h, Option.getD_none]

namespace Statement

theorem takeConstant?_capital {s name after : List Char}
    (h : takeConstant? s = some (name, after)) :
    ∃ c more, name = c :: more ∧ Text.isCapital c = true := by
  unfold takeConstant? at h
  split at h
  · cases h
  · next c rest =>
    split at h
    · next capital =>
      cases h
      exact ⟨c, _, rfl, capital⟩
    · cases h

/-- A path begins with a capital once its root is left out. -/
theorem takePath?_capitalized {s path after : List Char} (h : takePath? s = some (path, after)) :
    Capitalized (dropRoot (String.ofList path)) := by
  unfold takePath? at h
  split at h
  next root s' cut =>
  split at h
  case h_2 => cases h
  case h_1 name rest taken =>
    obtain ⟨c, more, rfl, capital⟩ := takeConstant?_capital taken
    cases h
    split at cut
    · cases cut
      refine ⟨c, more ++ (takeSegments rest.length rest).1, ?_, capital⟩
      simp [dropRoot, absolute?, List.isPrefixOf?]
    · cases cut
      have plain : Capitalized (String.ofList (c :: more ++ (takeSegments rest.length rest).1)) :=
        ⟨c, more ++ (takeSegments rest.length rest).1, by simp, capital⟩
      rw [List.nil_append, dropRoot_of_capitalized plain]
      exact plain

theorem classHeader?_capitalized {s : List Char} {h : Header} (read : classHeader? s = some h) :
    Capitalized (dropRoot h.path) := by
  unfold classHeader? at read
  simp only [Option.bind_eq_bind, Option.bind_eq_some_iff] at read
  obtain ⟨text, -, ⟨path, rest⟩, taken, read⟩ := read
  have capital := takePath?_capitalized taken
  split at read
  all_goals
    obtain ⟨closed, -, eq⟩ := Option.bind_eq_some_iff.mp read
    cases eq
    exact capital

theorem moduleHeader?_capitalized {s : List Char} {h : Header} (read : moduleHeader? s = some h) :
    Capitalized (dropRoot h.path) := by
  unfold moduleHeader? at read
  simp only [Option.bind_eq_bind, Option.bind_eq_some_iff] at read
  obtain ⟨text, -, ⟨path, rest⟩, taken, closed, -, eq⟩ := read
  cases eq
  exact takePath?_capitalized taken

/-- Only the two forms of headers open a class or module. -/
theorem read_header {s : List Char} {h : Header} (read : Statement.read s = .openNamespace h) :
    classHeader? s = some h ∨ moduleHeader? s = some h :=
  (header?_eq_some_iff.mp (read_eq_openNamespace_iff.mp read)).imp_right And.right

theorem read_capitalized {s : List Char} {h : Header} (read : Statement.read s = .openNamespace h) :
    Capitalized (dropRoot h.path) :=
  (read_header read).elim classHeader?_capitalized moduleHeader?_capitalized

end Statement

theorem Header.qualifiedName_eq (h : Header) (within : Option String) :
    h.qualifiedName within =
      match absolute? h.path, within with
      | some name, _ => name
      | none, some outer => s!"{outer}::{h.path}"
      | none, none => h.path := by
  unfold qualifiedName
  cases absolute : absolute? h.path with
  | some name =>
    have path : h.path.toList = ':' :: ':' :: name.toList := by
      rw [absolute?_eq_some_iff.mp absolute]
      exact String.toList_append
    simp only [path, String.ofList_toList]
  | none =>
    split
    · next path eq =>
      have rooted : h.path = "::" ++ String.ofList path := by
        apply String.toList_inj.mp
        simpa using eq
      exact absurd (absolute.symm.trans (absolute?_eq_some_iff.mpr rooted)) (by simp)
    · rfl
    · rfl

theorem Header.namespace_capitalized {h : Header} (path : Capitalized (dropRoot h.path))
    {within : Option String} (outer : ∀ name ∈ within, Capitalized name) (file : String)
    (line : Nat) (documentation : Option String) :
    Capitalized (h.namespace within file line documentation).qualifiedName := by
  change Capitalized (h.qualifiedName within)
  rw [h.qualifiedName_eq]
  cases root : absolute? h.path with
  | some name => simpa [dropRoot, root] using path
  | none =>
    cases within with
    | some name => exact capitalized_append (capitalized_append (outer name rfl) _) _
    | none => simpa [dropRoot, root] using path

/-- Each statement has been read from a line and has its number. -/
theorem origin_of_mem_located {comments : List (List Char)} {lines : List (List Char × Nat)}
    {l : Located} (h : l ∈ located comments lines) :
    ∃ raw source, (raw, l.line) ∈ lines ∧ l.statement = Statement.read source := by
  induction lines generalizing comments with
  | nil => cases h
  | cons numbered lines ih =>
    have later {comments : List (List Char)} (h : l ∈ located comments lines) :
        ∃ raw source, (raw, l.line) ∈ numbered :: lines ∧ l.statement = Statement.read source := by
      obtain ⟨raw, source, listed, read⟩ := ih h
      exact ⟨raw, source, List.mem_cons_of_mem _ listed, read⟩
    rw [located] at h
    split at h
    · exact later h
    · exact later h
    · exact later h
    · rcases List.mem_cons.mp h with rfl | h
      · exact ⟨_, _, List.mem_cons_self, rfl⟩
      · exact later h

theorem statement_of_mem_located {comments : List (List Char)} {lines : List (List Char × Nat)}
    {l : Located} (h : l ∈ located comments lines) :
    ∃ source, l.statement = Statement.read source := by
  obtain ⟨-, source, -, read⟩ := origin_of_mem_located h
  exact ⟨source, read⟩

end RubyIndex
