import RubyIndex.Proofs.DirectoryNames
import RubyIndex.Proofs.Identifiers

/-! Versions as a user writes them, with a point or by the name of a directory. With a point only
the first two numbers count, whatever third number and tag come after them. -/
namespace RubyIndex

namespace Text

variable {s first rest : List Char}

structure Digits (s : List Char) : Prop where
  written : s ≠ []
  digits : ∀ c ∈ s, isDigit c = true

theorem takeDigits_eq_iff : takeDigits s = (first, rest) ↔
    s = first ++ rest ∧ (∀ c ∈ first, isDigit c = true) ∧ ∀ c ∈ rest.head?, isDigit c = false :=
  span_eq_iff

end Text

namespace Version

open Text (Digits)

variable {s tag : List Char} {source : String} {v : Version}

inductive Patch : List Char → Prop where
  | missing : Patch []
  | number {digits : List Char} : Digits digits → Patch ('.' :: digits)

def OptionalTag (s : List Char) : Prop := s = [] ∨ isTag s = true

/-- Two numbers with a point between them write a version. A third number and a tag may follow. -/
inductive Dotted : List Char → Version → Prop where
  | intro {major minor patch tag : List Char} : Digits major → Digits minor → Patch patch →
      OptionalTag tag →
      Dotted (major ++ '.' :: (minor ++ (patch ++ tag))) ⟨Text.numeral major, Text.numeral minor⟩

theorem OptionalTag.head (h : OptionalTag tag) : ∀ c ∈ tag.head?, Text.isDigit c = false := by
  rcases h with rfl | h
  · simp
  · cases tag with
    | nil => simp
    | cons d rest =>
      simp only [isTag, Bool.and_eq_true, Bool.or_eq_true, beq_iff_eq] at h
      rintro c ⟨⟩
      rcases h.1.1 with rfl | rfl <;> decide

theorem isSuffix_iff : isSuffix s = true ↔
    ∃ patch tag, s = patch ++ tag ∧ Patch patch ∧ OptionalTag tag := by
  unfold isSuffix
  rw [Bool.or_eq_true, Bool.or_eq_true, List.isEmpty_iff]
  constructor
  · rintro (unpatched | h)
    · exact ⟨[], s, rfl, .missing, unpatched⟩
    · split at h
      · next t =>
        obtain ⟨digits, tag, cut⟩ : ∃ digits tag, Text.takeDigits t = (digits, tag) := ⟨_, _, rfl⟩
        obtain ⟨rfl, number, -⟩ := Text.takeDigits_eq_iff.mp cut
        simp only [cut, Bool.and_eq_true, Bool.or_eq_true, List.isEmpty_iff, Bool.not_eq_true',
          List.isEmpty_eq_false_iff] at h
        exact ⟨'.' :: digits, tag, rfl, .number ⟨h.1, number⟩, h.2⟩
      · cases h
  · rintro ⟨patch, tag, rfl, patched, tagged⟩
    cases patched with
    | missing => exact .inl tagged
    | @number digits number =>
      have cut : Text.takeDigits (digits ++ tag) = (digits, tag) :=
        Text.takeDigits_eq_iff.mpr ⟨rfl, number.digits, tagged.head⟩
      have rest : (tag.isEmpty || isTag tag) = true := by
        rwa [Bool.or_eq_true, List.isEmpty_iff]
      exact .inr (by simp [cut, rest, number.written])

theorem ofDotted?_eq_some_iff : ofDotted? s = some v ↔ Dotted s v := by
  constructor
  · intro h
    unfold ofDotted? at h
    split at h
    · next major t cut =>
      obtain ⟨minor, suffix, cut'⟩ : ∃ minor suffix, Text.takeDigits t = (minor, suffix) :=
        ⟨_, _, rfl⟩
      obtain ⟨rfl, first, -⟩ := Text.takeDigits_eq_iff.mp cut
      obtain ⟨rfl, second, -⟩ := Text.takeDigits_eq_iff.mp cut'
      simp only [cut'] at h
      split at h
      · next read =>
        cases h
        simp only [Bool.and_eq_true, Bool.not_eq_true', List.isEmpty_eq_false_iff,
          isSuffix_iff] at read
        obtain ⟨⟨written, written'⟩, patch, tag, rfl, patched, tagged⟩ := read
        exact .intro ⟨written, first⟩ ⟨written', second⟩ patched tagged
      · cases h
    · cases h
  · rintro ⟨first, second, patched, tagged⟩
    next major minor patch tag =>
    have cut : Text.takeDigits (major ++ '.' :: (minor ++ (patch ++ tag))) =
        (major, '.' :: (minor ++ (patch ++ tag))) :=
      Text.takeDigits_append first.digits (by decide)
    have stop : ∀ c ∈ (patch ++ tag).head?, Text.isDigit c = false := by
      cases patched with
      | missing => exact tagged.head
      | number => rintro c ⟨⟩; decide
    have cut' : Text.takeDigits (minor ++ (patch ++ tag)) = (minor, patch ++ tag) :=
      Text.takeDigits_eq_iff.mpr ⟨rfl, second.digits, stop⟩
    have rest : isSuffix (patch ++ tag) = true := isSuffix_iff.mpr ⟨_, _, rfl, patched, tagged⟩
    simp [ofDotted?, cut, cut', rest, first.written, second.written]

/-- A text begins with a digit if it writes a version with a point. -/
theorem not_directoryPrefix_of_dotted (h : Dotted s v) :
    directoryPrefix.toList.isPrefixOf s = false := by
  obtain ⟨first, -, -, -⟩ := h
  next major minor patch tag =>
  obtain ⟨d, rest, rfl⟩ := List.exists_cons_of_ne_nil first.written
  have digit : Text.isDigit d = true := first.digits d List.mem_cons_self
  have apart : ¬ 'r' = d := by
    rintro rfl
    exact absurd digit (by decide)
  have letters : directoryPrefix.toList = 'r' :: "ubystubs".toList := rfl
  rw [letters, List.cons_append, List.isPrefixOf_cons_cons]
  simp [apart]

theorem directoryPrefix_of_ofDirectoryName {name : String} (h : ofDirectoryName name = .ok v) :
    directoryPrefix.toList.isPrefixOf name.toList = true := by
  unfold ofDirectoryName at h
  split at h
  · next read =>
    unfold ofDirectoryChars? at read
    split at read
    · cases read
    · next t cut =>
      exact List.isPrefixOf_iff_prefix.mpr ⟨t, List.isPrefixOf?_eq_some_iff_append_eq.mp cut⟩
  · cases h

/-- What is read as a version, blanks around it apart. -/
theorem parse_eq_ok_iff : parse source = .ok v ↔
    Dotted (Text.trim source.toList) v ∨
      ofDirectoryName (String.ofList (Text.trim source.toList)) = .ok v := by
  unfold parse
  dsimp only
  split
  · next named =>
    constructor
    · exact .inr
    · rintro (dotted | read)
      · exact nomatch (not_directoryPrefix_of_dotted dotted).symm.trans named
      · exact read
  · next plain =>
    constructor
    · intro h
      split at h
      · next read =>
        cases h
        exact .inl (ofDotted?_eq_some_iff.mp read)
      · cases h
    · rintro (dotted | read)
      · rw [ofDotted?_eq_some_iff.mpr dotted]
      · exact absurd (directoryPrefix_of_ofDirectoryName read) (by simpa using plain)

end Version

end RubyIndex
