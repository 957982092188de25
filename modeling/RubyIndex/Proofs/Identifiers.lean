import Mathlib.Data.List.TakeDrop
import Mathlib.Data.List.TakeWhile
import RubyIndex.Parameter.Parse

/-! Identifiers. One is split off a text exactly if it stands at its start and no word character
follows. -/
namespace RubyIndex

namespace Text

theorem span_eq_iff {p : Char → Bool} {s first rest : List Char} :
    s.span p = (first, rest) ↔
      s = first ++ rest ∧ (∀ c ∈ first, p c = true) ∧ ∀ c ∈ rest.head?, p c = false := by
  rw [List.span_eq_takeWhile_dropWhile, Prod.mk.injEq]
  constructor
  · rintro ⟨rfl, rfl⟩
    refine ⟨List.takeWhile_append_dropWhile.symm, fun c hc => List.mem_takeWhile_imp hc, ?_⟩
    intro c hc
    have stop := List.head?_dropWhile_not p s
    rw [show (s.dropWhile p).head? = some c from hc] at stop
    exact stop
  · rintro ⟨rfl, within, stop⟩
    rw [List.takeWhile_append_of_pos within, List.dropWhile_append_of_pos within]
    cases rest with
    | nil => simp
    | cons c rest =>
      have other : ¬p c = true := by simp [stop c rfl]
      rw [List.takeWhile_cons_of_neg other, List.dropWhile_cons_of_neg other, List.append_nil]
      exact ⟨rfl, rfl⟩

/-- The letters and digits of the ASCII range are three runs of code points. -/
theorem isAlphanum_iff {c : Char} : c.isAlphanum = true ↔
    (65 ≤ c.toNat ∧ c.toNat ≤ 90 ∨ 97 ≤ c.toNat ∧ c.toNat ≤ 122) ∨
      48 ≤ c.toNat ∧ c.toNat ≤ 57 := by
  have runs : c.isAlphanum = ((decide (c.val ≥ 65 ∧ c.val ≤ 90) ||
      decide (c.val ≥ 97) && decide (c.val ≤ 122)) ||
        decide (c.val ≥ 48) && decide (c.val ≤ 57)) := rfl
  simp only [runs, Bool.or_eq_true, Bool.and_eq_true, decide_eq_true_eq, ge_iff_le,
    UInt32.le_iff_toNat_le]
  rfl

/-- An identifier begins with a letter of the ASCII range or an underscore. -/
theorem range_of_startsIdentifier {c : Char} (h : startsIdentifier c = true) :
    (65 ≤ c.toNat ∧ c.toNat ≤ 90 ∨ 97 ≤ c.toNat ∧ c.toNat ≤ 122) ∨ c = '_' := by
  simp only [startsIdentifier, isCapital, Bool.or_eq_true, Bool.and_eq_true, decide_eq_true_eq,
    beq_iff_eq, Char.le_def, UInt32.le_iff_toNat_le] at h
  exact h

theorem isWord_of_startsIdentifier {c : Char} (h : startsIdentifier c = true) :
    isWord c = true := by
  rcases range_of_startsIdentifier h with letter | rfl
  · have ascii : c.toNat < 128 := by omega
    simp only [isWord, ascii, if_true, isAlphanum_iff.mpr (.inl letter), Bool.true_or]
  · rfl

def otherBlanks : List Nat :=
  [0x85, 0xA0, 0x1680, 0x2000, 0x2001, 0x2002, 0x2003, 0x2004, 0x2005, 0x2006, 0x2007, 0x2008,
    0x2009, 0x200A, 0x2028, 0x2029, 0x202F, 0x205F, 0x3000]

theorem not_inRanges_otherBlanks : ∀ n ∈ otherBlanks, inRanges wordRanges n = false := by
  decide +kernel

theorem isBlank_of_isWord {c : Char} (word : isWord c = true) : isBlank c = false := by
  rw [← Bool.not_eq_true]
  intro blank
  simp only [isBlank, Bool.or_eq_true, Bool.and_eq_true, decide_eq_true_eq, beq_iff_eq] at blank
  unfold isWord at word
  split at word
  · have low : c.toNat ≤ 32 := by omega
    simp only [Bool.or_eq_true, beq_iff_eq, isAlphanum_iff] at word
    rcases word with (letter | digit) | rfl
    · omega
    · omega
    · exact absurd low (by decide)
  · have other : c.toNat ∈ otherBlanks := by
      simp only [otherBlanks, List.mem_cons, List.not_mem_nil, or_false]
      omega
    exact nomatch (not_inRanges_otherBlanks _ other).symm.trans word

end Text

namespace Parameter

def Identifier (name : List Char) : Prop :=
  ∃ c more, name = c :: more ∧ Text.startsIdentifier c = true ∧ ∀ d ∈ more, Text.isWord d = true

variable {s name rest : List Char}

theorem takeIdentifier?_eq_some_iff : takeIdentifier? s = some (name, rest) ↔
    Identifier name ∧ s = name ++ rest ∧ ∀ c ∈ rest.head?, Text.isWord c = false := by
  constructor
  · intro h
    unfold takeIdentifier? at h
    split at h
    · cases h
    · next c behind =>
      split at h
      · next starts =>
        generalize cut : behind.span Text.isWord = p at h
        obtain ⟨more, after⟩ := p
        cases h
        obtain ⟨rfl, word, stop⟩ := Text.span_eq_iff.mp cut
        exact ⟨⟨c, more, rfl, starts, word⟩, rfl, stop⟩
      · cases h
  · rintro ⟨⟨c, more, rfl, starts, word⟩, rfl, stop⟩
    have cut : (more ++ rest).span Text.isWord = (more, rest) :=
      Text.span_eq_iff.mpr ⟨rfl, word, stop⟩
    rw [List.cons_append, takeIdentifier?, if_pos starts, cut]

theorem Identifier.isWord (h : Identifier name) : ∀ c ∈ name, Text.isWord c = true := by
  obtain ⟨c, more, rfl, starts, word⟩ := h
  exact List.forall_mem_cons.mpr ⟨Text.isWord_of_startsIdentifier starts, word⟩

end Parameter

end RubyIndex
