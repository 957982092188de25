import Mathlib.Data.List.Induction
import RubyIndex.Proofs.DirectoryNames

/-! Trimmed texts: those without a blank at either end. A text is its trimmed text with blanks
around it. -/
namespace RubyIndex.Text

variable {s : List Char} {c : Char}

/-- What holds of a text without a blank at one end of it whenever it holds of the text, holds of
the trimmed text. -/
theorem trim_of_closed {P : List Char → Prop} (first : ∀ b s, isBlank b = true → P (b :: s) → P s)
    (last : ∀ b s, isBlank b = true → P (s ++ [b]) → P s) (h : P s) : P (trim s) := by
  have left (s : List Char) (h : P s) : P (trimLeft s) := by
    induction s with
    | nil => exact h
    | cons c s ih =>
      rw [trimLeft, List.dropWhile_cons]
      split
      · next blank => exact ih (first c s blank h)
      · exact h
  have right (s : List Char) (h : P s) : P (trimRight s) := by
    induction s using List.reverseRecOn with
    | nil => exact h
    | append_singleton s c ih =>
      rw [trimRight, List.reverse_append, List.reverse_singleton, List.singleton_append,
        List.dropWhile_cons]
      split
      · next blank => exact ih (last c s blank h)
      · rwa [List.reverse_cons, List.reverse_reverse]
  exact right _ (left _ h)

structure Trimmed (s : List Char) : Prop where
  first : ∀ c ∈ s.head?, isBlank c = false
  last : ∀ c ∈ s.getLast?, isBlank c = false

theorem Trimmed.trim_eq (h : Trimmed s) : trim s = s := trim_eq_self h.first h.last

theorem trimLeft_eq_self (first : ∀ c ∈ s.head?, isBlank c = false) : trimLeft s = s := by
  cases s with
  | nil => rfl
  | cons c s => exact List.dropWhile_cons_of_neg (by simp [first c rfl])

theorem head?_trimLeft (s : List Char) : ∀ c ∈ (trimLeft s).head?, isBlank c = false := by
  intro c hc
  have first := List.head?_dropWhile_not isBlank s
  rw [show (s.dropWhile isBlank).head? = some c from hc] at first
  exact first

theorem getLast?_trimRight (s : List Char) : ∀ c ∈ (trimRight s).getLast?, isBlank c = false := by
  rw [trimRight, List.getLast?_reverse]
  exact head?_trimLeft s.reverse

theorem length_trimLeft_le (s : List Char) : (trimLeft s).length ≤ s.length :=
  (List.dropWhile_suffix isBlank).length_le

theorem length_trimRight_le (s : List Char) : (trimRight s).length ≤ s.length := by
  have turned := length_trimLeft_le s.reverse
  rw [List.length_reverse] at turned
  rwa [trimRight, List.length_reverse]

theorem trimRight_cons (plain : isBlank c = false) (s : List Char) :
    trimRight (c :: s) = c :: trimRight s := by
  have stop : [c].dropWhile isBlank = [c] := List.dropWhile_cons_of_neg (by simp [plain])
  rw [trimRight, trimRight, List.reverse_cons, List.dropWhile_append, stop]
  split
  · next empty => rw [List.isEmpty_iff.mp empty]; rfl
  · rw [List.reverse_append]; rfl

theorem head?_trimRight (first : ∀ c ∈ s.head?, isBlank c = false) :
    (trimRight s).head? = s.head? := by
  cases s with
  | nil => rfl
  | cons c s => rw [trimRight_cons (first c rfl)]; rfl

theorem trimmed_trim (s : List Char) : Trimmed (trim s) where
  first := by
    rw [trim, head?_trimRight (head?_trimLeft s)]
    exact head?_trimLeft s
  last := getLast?_trimRight _

theorem trim_trim (s : List Char) : trim (trim s) = trim s := (trimmed_trim s).trim_eq

theorem Trimmed.cons (plain : isBlank c = false) (h : Trimmed s) : Trimmed (c :: s) where
  first := by
    rintro _ ⟨⟩
    exact plain
  last := by
    intro d hd
    cases s with
    | nil =>
      cases hd
      exact plain
    | cons e s => exact h.last d (by rwa [List.getLast?_cons_cons] at hd)

/-- A trimmed text after one that begins without a blank. -/
theorem Trimmed.append {before : List Char} (first : ∀ c ∈ before.head?, isBlank c = false)
    (h : Trimmed s) (listed : before ≠ []) (written : s ≠ []) : Trimmed (before ++ s) where
  first := by rwa [List.head?_append_of_ne_nil _ listed]
  last := by
    rw [List.getLast?_append_of_ne_nil _ written]
    exact h.last

/-- What a text that ends without a blank ends in does so too. -/
theorem getLast?_of_suffix {rest : List Char} (within : rest <:+ s)
    (last : ∀ c ∈ s.getLast?, isBlank c = false) : ∀ c ∈ rest.getLast?, isBlank c = false := by
  obtain ⟨before, rfl⟩ := within
  intro c hc
  refine last c ?_
  rw [List.getLast?_append, show rest.getLast? = some c from hc]
  rfl

/-- Blanks are only removed up to the first character that is none. -/
theorem trimLeft_append {before : List Char} (first : ∀ c ∈ s.head?, isBlank c = false) :
    trimLeft (before ++ s) = trimLeft before ++ s := by
  induction before with
  | nil => exact trimLeft_eq_self first
  | cons c before ih =>
    rw [trimLeft, trimLeft, List.cons_append, List.dropWhile_cons, List.dropWhile_cons]
    split
    · exact ih
    · rfl

theorem trimRight_append {after : List Char} (last : ∀ c ∈ s.getLast?, isBlank c = false) :
    trimRight (s ++ after) = s ++ trimRight after := by
  have turned : (after.reverse ++ s.reverse).dropWhile isBlank =
      after.reverse.dropWhile isBlank ++ s.reverse :=
    trimLeft_append (by rwa [List.head?_reverse])
  rw [trimRight, trimRight, List.reverse_append, turned, List.reverse_append, List.reverse_reverse]

/-- Around a trimmed text only blanks on the outer sides are removed. -/
theorem trim_append_append {before middle after : List Char} (h : Trimmed middle)
    (written : middle ≠ []) :
    trim (before ++ middle ++ after) = trimLeft before ++ middle ++ trimRight after := by
  have first : ∀ c ∈ (middle ++ after).head?, isBlank c = false := by
    rw [List.head?_append_of_ne_nil _ written]
    exact h.first
  have last : ∀ c ∈ (trimLeft before ++ middle).getLast?, isBlank c = false := by
    rw [List.getLast?_append_of_ne_nil _ written]
    exact h.last
  rw [trim, List.append_assoc, trimLeft_append first, ← List.append_assoc, trimRight_append last]

theorem trimRight_eq_nil_iff : trimRight s = [] ↔ blankText s = true := by
  rw [trimRight, List.reverse_eq_nil_iff, List.dropWhile_eq_nil_iff, blankText, List.all_eq_true]
  simp only [List.mem_reverse]

theorem exists_trimRight (s : List Char) :
    ∃ gap, blankText gap = true ∧ s = trimRight s ++ gap := by
  refine ⟨(s.reverse.takeWhile isBlank).reverse, ?_, ?_⟩
  · rw [blankText, List.all_reverse]
    exact List.all_takeWhile
  · rw [trimRight, ← List.reverse_append, List.takeWhile_append_dropWhile, List.reverse_reverse]

/-- What stands before a text that is not blank is kept. -/
theorem trimRight_append_of_visible {before : List Char} (visible : ¬ blankText s = true) :
    trimRight (before ++ s) = before ++ trimRight s := by
  have written : trimRight s ≠ [] := fun none => visible (trimRight_eq_nil_iff.mp none)
  obtain ⟨gap, blank, cut⟩ := exists_trimRight s
  have last : ∀ c ∈ (before ++ trimRight s).getLast?, isBlank c = false := by
    rw [List.getLast?_append_of_ne_nil _ written]
    exact getLast?_trimRight s
  calc
    trimRight (before ++ s) = trimRight (before ++ trimRight s ++ gap) := by
      rw [List.append_assoc, ← cut]
    _ = before ++ trimRight s := by
      rw [trimRight_append last, trimRight_eq_nil_iff.mpr blank, List.append_nil]

theorem exists_trimLeft (s : List Char) : ∃ gap, blankText gap = true ∧ s = gap ++ trimLeft s :=
  ⟨s.takeWhile isBlank, List.all_takeWhile, List.takeWhile_append_dropWhile.symm⟩

theorem trimLeft_blank_append {gap : List Char} (blank : blankText gap = true) (s : List Char) :
    trimLeft (gap ++ s) = trimLeft s :=
  List.dropWhile_append_of_pos (List.all_eq_true.mp blank)

/-- Only blanks at the start are left out of a text that ends without one. -/
theorem trim_eq_trimLeft (last : ∀ c ∈ s.getLast?, isBlank c = false) : trim s = trimLeft s := by
  have trimmed : Trimmed (trimLeft s) :=
    ⟨head?_trimLeft s, getLast?_of_suffix (List.dropWhile_suffix _) last⟩
  obtain ⟨gap, blank, cut⟩ := exists_trimLeft s
  calc
    trim s = trimRight (trimLeft (gap ++ trimLeft s)) := by rw [← cut, trim]
    _ = trim (trimLeft s) := by rw [trimLeft_blank_append blank, trim]
    _ = trimLeft s := trimmed.trim_eq

theorem trim_eq_nil_iff : trim s = [] ↔ blankText s = true := by
  have left : trimLeft s = [] ↔ blankText s = true := by
    rw [trimLeft, List.dropWhile_eq_nil_iff, blankText, List.all_eq_true]
  rw [← left, trim]
  constructor
  · intro none
    cases eq : trimLeft s with
    | nil => rfl
    | cons c rest =>
      have plain := head?_trimLeft s c (by rw [eq]; rfl)
      rw [eq, trimRight_cons plain] at none
      cases none
  · intro none
    rw [none]
    rfl

end RubyIndex.Text
