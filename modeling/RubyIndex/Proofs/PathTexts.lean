import Mathlib.Data.List.Basic
import RubyIndex.Path

/-! Paths and their texts. A path without empty components, dots or slashes in its components is
read back from its text, so different paths have different texts. -/
namespace RubyIndex.Path

variable {p q : Path} {c : Char}

structure IsPart (part : String) : Prop where
  nonempty : part ≠ ""
  notDot : part ≠ "."
  noSlash : '/' ∉ part.toList

instance (part : String) : Decidable (IsPart part) :=
  decidable_of_iff (part ≠ "" ∧ part ≠ "." ∧ '/' ∉ part.toList)
    ⟨fun ⟨nonempty, notDot, noSlash⟩ => ⟨nonempty, notDot, noSlash⟩,
      fun ⟨nonempty, notDot, noSlash⟩ => ⟨nonempty, notDot, noSlash⟩⟩

def Normal (p : Path) : Prop := ∀ part ∈ p.parts, IsPart part

theorem not_mem_of_mem_splitOn {source piece : List Char} (h : piece ∈ source.splitOn c) :
    c ∉ piece := by
  induction source generalizing piece with
  | nil => simp_all
  | cons d rest ih =>
    rw [List.splitOn_cons_eq_if_modifyHead] at h
    split at h
    · rcases List.mem_cons.mp h with rfl | h
      · exact List.not_mem_nil
      · exact ih h
    · next other =>
      obtain ⟨first, more, pieces⟩ := List.exists_cons_of_ne_nil (List.splitOn_ne_nil c rest)
      rw [pieces] at h ih
      rcases List.mem_cons.mp h with rfl | h
      · have apart : c ≠ d := by
          rintro rfl
          exact other (beq_self_eq_true c)
        exact List.not_mem_cons_of_ne_of_not_mem apart (ih List.mem_cons_self)
      · exact ih (List.mem_cons_of_mem _ h)

theorem normal_ofString (source : String) : (ofString source).Normal := by
  intro part hpart
  obtain ⟨chars, kept, rfl⟩ := List.mem_map.mp hpart
  obtain ⟨piece, filled⟩ := List.mem_filter.mp kept
  have apart : chars ≠ [] ∧ chars ≠ ['.'] := by simpa using filled
  constructor
  · intro empty
    exact apart.1 (String.ofList_injective empty)
  · intro dot
    exact apart.2 (String.ofList_injective dot)
  · rw [String.toList_ofList]
    exact not_mem_of_mem_splitOn piece

theorem Normal.append {parts : List String} (h : p.Normal) (more : ∀ part ∈ parts, IsPart part) :
    (p.append parts).Normal := by
  intro part hpart
  rcases List.mem_append.mp hpart with hpart | hpart
  · exact h part hpart
  · exact more part hpart

def joined (parts : List String) : List Char := ['/'].intercalate (parts.map String.toList)

theorem toList_text (p : Path) : p.text.toList =
    if p.root = .relative ∧ p.parts = [] then ['.']
    else (rootText p.root).toList ++ joined p.parts := by
  have slash : "/".toList = ['/'] := rfl
  by_cases empty : p.root = .relative ∧ p.parts = []
  · simp [text, empty]
  · simp only [text, Bool.and_eq_true, decide_eq_true_eq, List.isEmpty_iff, empty, if_false,
      String.toList_append, String.toList_intercalate, slash, joined]

theorem head?_joined {parts : List String} (h : ∀ part ∈ parts, IsPart part) :
    (joined parts).head? ≠ some '/' := by
  cases parts with
  | nil => simp [joined]
  | cons first rest =>
    have part := h first List.mem_cons_self
    cases chars : first.toList with
    | nil => exact absurd (String.toList_eq_nil_iff.mp chars) part.nonempty
    | cons c tail =>
      have apart : c ≠ '/' := by
        rintro rfl
        exact part.noSlash (by rw [chars]; exact List.mem_cons_self)
      cases rest <;> simpa [joined, chars] using apart

theorem pieces_joined {parts : List String} (h : ∀ part ∈ parts, IsPart part) :
    (((joined parts).splitOn '/').filter fun p => p != [] && p != ['.']).map String.ofList =
      parts := by
  by_cases empty : parts = []
  · subst empty
    rfl
  · have noSlash : ∀ chars ∈ parts.map String.toList, '/' ∉ chars := by
      intro chars hchars
      obtain ⟨part, hpart, rfl⟩ := List.mem_map.mp hchars
      exact (h part hpart).noSlash
    have kept : ∀ chars ∈ parts.map String.toList, (chars != [] && chars != ['.']) = true := by
      intro chars hchars
      obtain ⟨part, hpart, rfl⟩ := List.mem_map.mp hchars
      have filled : part.toList ≠ [] := fun e =>
        (h part hpart).nonempty (String.toList_eq_nil_iff.mp e)
      have notDot : part.toList ≠ ['.'] := fun e =>
        (h part hpart).notDot (String.toList_inj.mp e)
      simp [filled, notDot]
    rw [joined, List.splitOn_intercalate '/' noSlash (by simpa using empty),
      List.filter_eq_self.mpr kept, List.map_map]
    simp [Function.comp_def]

theorem splitOn_slash (chars : List Char) :
    ('/' :: chars).splitOn '/' = [] :: chars.splitOn '/' := by
  simp [List.splitOn_cons_eq_if_modifyHead]

theorem rootOf_rootText_append {chars : List Char} (h : chars.head? ≠ some '/') (root : PathRoot) :
    rootOf ((rootText root).toList ++ chars) = root := by
  have single : (rootText .single).toList = ['/'] := rfl
  have double : (rootText .double).toList = ['/', '/'] := rfl
  cases chars with
  | nil => cases root <;> rfl
  | cons c rest =>
    have apart : c ≠ '/' := by simpa using h
    cases root with
    | relative =>
      change rootOf (c :: rest) = .relative
      simp [rootOf, apart]
    | single => simp [single, rootOf, apart]
    | double => simp [double, rootOf, apart]

/-- Reading undoes writing. -/
theorem ofString_text (h : p.Normal) : ofString p.text = p := by
  obtain ⟨root, parts⟩ := p
  have start := head?_joined h
  have pieces := pieces_joined h
  dsimp only at start pieces
  rw [ofString, toList_text]
  by_cases dot : root = .relative ∧ parts = []
  · obtain ⟨rfl, rfl⟩ := dot
    rfl
  · simp only [dot, if_false, rootOf_rootText_append start]
    congr 1
    -- The slashes of the root only add empty pieces, which are left out.
    rw [← pieces]
    cases root <;> simp [rootText, splitOn_slash, pieces]

theorem text_injective (hp : p.Normal) (hq : q.Normal) (same : p.text = q.text) : p = q := by
  rw [← ofString_text hp, same, ofString_text hq]

/-- Below a directory the text of a path starts at the directory. -/
theorem relativeText_append {parts : List String} (h : (p.append parts).Normal) :
    relativeText p (p.append parts).text = ({ parts := parts } : Path).text := by
  have inside : p.parts.isPrefixOf? (p.append parts).parts = some parts := by
    rw [List.isPrefixOf?_eq_some_iff_append_eq]
    rfl
  have root : (p.append parts).root = p.root := rfl
  simp only [relativeText, below?, ofString_text h, root, if_true, inside]

theorem mem_joined_iff {parts : List String} (h : c ≠ '/') :
    c ∈ joined parts ↔ ∃ part ∈ parts, c ∈ part.toList := by
  induction parts with
  | nil => simp [joined]
  | cons part rest ih =>
    cases rest with
    | nil => simp [joined]
    | cons next more =>
      rw [joined] at ih
      rw [joined, List.map_cons, List.map_cons, List.intercalate_cons_cons, ← List.map_cons,
        List.mem_append, ih, List.mem_append, List.mem_singleton]
      simp [h]

theorem hasZero_text (p : Path) : hasZero p.text = p.parts.any hasZero := by
  have root : '\x00' ∉ (rootText p.root).toList := by cases p.root <;> decide
  have joined : '\x00' ∈ joined p.parts ↔ _ := mem_joined_iff (by decide)
  rw [Bool.eq_iff_iff]
  simp only [hasZero, List.contains_iff_mem, List.any_eq_true, toList_text]
  split
  · next dot => simp [dot.2]
  · rw [List.mem_append, joined]
    simp [root]

end RubyIndex.Path
