import Mathlib.Data.List.Basic
import Mathlib.Data.List.TakeDrop
import Mathlib.Data.List.TakeWhile
import RubyIndex.Version

/-! Names of version directories. A version with a single-digit major number is read from the name
that it is written as. -/
namespace RubyIndex

namespace Text

theorem range_of_isDigit {c : Char} (h : c.isDigit = true) : 48 ≤ c.toNat ∧ c.toNat ≤ 57 := by
  rw [Char.isDigit, Bool.and_eq_true, decide_eq_true_iff, decide_eq_true_iff] at h
  exact h

theorem digitValue?_of_isDigit {c : Char} (h : c.isDigit = true) :
    digitValue? c = some (c.toNat - 48) := by
  have range := range_of_isDigit h
  have ascii : c.toNat < 128 := by omega
  simp [digitValue?, ascii, range]

theorem decimal_of_mem_toDigits {n : Nat} {c : Char} (h : c ∈ Nat.toDigits 10 n) :
    c.isDigit = true :=
  Nat.isDigit_of_mem_toDigits (by decide) (by decide) h

theorem isDigit_of_mem_toDigits {n : Nat} {c : Char} (h : c ∈ Nat.toDigits 10 n) :
    isDigit c = true := by
  simp [isDigit, digitValue?_of_isDigit (decimal_of_mem_toDigits h)]

/-- The decimal digits of a number write it. -/
theorem numeral_toDigits (n : Nat) : numeral (Nat.toDigits 10 n) = n := by
  have same : numeral (Nat.toDigits 10 n) = Nat.ofDigitChars 10 (Nat.toDigits 10 n) 0 := by
    rw [numeral, Nat.ofDigitChars_eq_foldl]
    refine List.foldl_ext _ _ _ ?_
    intro m c hc
    rw [digitValue?_of_isDigit (decimal_of_mem_toDigits hc)]
    rfl
  rw [same, Nat.ofDigitChars_ten_toDigits]

theorem digitValue?_lt_ten {c : Char} {d : Nat} (h : digitValue? c = some d) : d < 10 := by
  unfold digitValue? at h
  dsimp only at h
  split at h
  · by_cases range : 48 ≤ c.toNat ∧ c.toNat ≤ 57
    · simp only [range, decide_true, Bool.and_self, if_true, Option.some.injEq] at h
      omega
    · simp [range] at h
  · obtain ⟨first, found, rfl⟩ := Option.map_eq_some_iff.mp h
    have range := List.find?_some found
    simp only [Bool.and_eq_true, decide_eq_true_eq] at range
    omega

theorem numeral_singleton_lt (c : Char) : numeral [c] < 10 := by
  have value : numeral [c] = (digitValue? c).getD 0 := by simp [numeral]
  rw [value]
  cases h : digitValue? c with
  | none => decide
  | some d => exact digitValue?_lt_ten h

theorem takeDigits_of_all {s : List Char} (h : ∀ c ∈ s, isDigit c = true) :
    takeDigits s = (s, []) := by
  rw [takeDigits, List.span_eq_takeWhile_dropWhile, List.takeWhile_eq_self_iff.mpr h,
    List.dropWhile_eq_nil_iff.mpr h]

theorem takeDigits_append {s rest : List Char} {c : Char} (h : ∀ d ∈ s, isDigit d = true)
    (stop : isDigit c = false) : takeDigits (s ++ c :: rest) = (s, c :: rest) := by
  have other : ¬ isDigit c = true := by simp [stop]
  rw [takeDigits, List.span_eq_takeWhile_dropWhile, List.takeWhile_append_of_pos h,
    List.takeWhile_cons_of_neg other, List.append_nil, List.dropWhile_append_of_pos h,
    List.dropWhile_cons_of_neg other]

theorem isBlank_of_isDigit {c : Char} (h : c.isDigit = true) : isBlank c = false := by
  have range := range_of_isDigit h
  simp only [isBlank, Bool.or_eq_false_iff, Bool.and_eq_false_iff, decide_eq_false_iff_not,
    beq_eq_false_iff_ne]
  omega

/-- A text has nothing to trim if neither its first nor its last character is blank. -/
theorem trim_eq_self {s : List Char} (first : ∀ c ∈ s.head?, isBlank c = false)
    (last : ∀ c ∈ s.getLast?, isBlank c = false) : trim s = s := by
  have kept {s : List Char} (first : ∀ c ∈ s.head?, isBlank c = false) :
      s.dropWhile isBlank = s := by
    cases s with
    | nil => rfl
    | cons c rest => exact List.dropWhile_cons_of_neg (by simp [first c rfl])
  rw [trim, trimLeft, kept first, trimRight, kept (by rwa [List.head?_reverse]),
    List.reverse_reverse]

end Text

namespace Version

theorem toList_directoryName (v : Version) : v.directoryName.toList =
    directoryPrefix.toList ++ (Nat.toDigits 10 v.major ++ Nat.toDigits 10 v.minor) := by
  simp only [directoryName, String.toList_append, toString, Nat.toList_repr]
  rfl

/-- Only versions with a single-digit major number have a directory. -/
theorem major_lt_of_ofDirectoryChars? {s : List Char} {v : Version}
    (h : ofDirectoryChars? s = some v) : v.major < 10 := by
  unfold ofDirectoryChars? at h
  split at h
  · cases h
  · split at h
    · next major minor rest digits =>
      split at h
      · cases h
        exact Text.numeral_singleton_lt major
      · cases h
    · cases h

theorem ofDirectoryName_eq_ok_iff {name : String} {v : Version} :
    ofDirectoryName name = .ok v ↔ ofDirectoryChars? name.toList = some v := by
  unfold ofDirectoryName
  cases ofDirectoryChars? name.toList <;> simp

theorem ofDirectoryChars?_append {d : Char} {rest : List Char}
    (digits : ∀ c ∈ d :: rest, Text.isDigit c = true) (written : rest ≠ []) :
    ofDirectoryChars? (directoryPrefix.toList ++ d :: rest) =
      some ⟨Text.numeral [d], Text.numeral rest⟩ := by
  have start : directoryPrefix.toList.isPrefixOf? (directoryPrefix.toList ++ d :: rest) =
      some (d :: rest) := List.isPrefixOf?_eq_some_iff_append_eq.mpr rfl
  unfold ofDirectoryChars?
  rw [start]
  simp [Text.takeDigits_of_all digits, written]

theorem isDigit_of_mem_append_toDigits {v : Version} :
    ∀ c ∈ Nat.toDigits 10 v.major ++ Nat.toDigits 10 v.minor, Text.isDigit c = true := by
  intro c hc
  rcases List.mem_append.mp hc with hc | hc
  · exact Text.isDigit_of_mem_toDigits hc
  · exact Text.isDigit_of_mem_toDigits hc

theorem ofDirectoryChars?_directoryName {v : Version} (h : v.major < 10) :
    ofDirectoryChars? v.directoryName.toList = some v := by
  have single := Nat.toDigits_of_lt_base h
  have digits := @isDigit_of_mem_append_toDigits v
  have major : Text.numeral [v.major.digitChar] = v.major := by
    rw [← single, Text.numeral_toDigits]
  rw [single, List.singleton_append] at digits
  rw [toList_directoryName, single, List.singleton_append,
    ofDirectoryChars?_append digits Nat.toDigits_ne_nil, major, Text.numeral_toDigits]

/-- A version is read from the text that it is written as. -/
theorem parse_text (v : Version) : parse v.text = .ok v := by
  have chars : v.text.toList = Nat.toDigits 10 v.major ++ '.' :: Nat.toDigits 10 v.minor := by
    simp only [text, String.toList_append, toString, Nat.toList_repr, List.append_assoc]
    rfl
  obtain ⟨d, major, first⟩ := List.exists_cons_of_ne_nil (@Nat.toDigits_ne_nil v.major 10)
  have head : d.isDigit = true := Text.decimal_of_mem_toDigits (first ▸ List.mem_cons_self)
  have trimmed : Text.trim v.text.toList = v.text.toList := by
    apply Text.trim_eq_self
    · intro c hc
      obtain rfl : d = c := by simpa [chars, first] using hc
      exact Text.isBlank_of_isDigit head
    · intro c hc
      rw [chars, List.getLast?_append_of_ne_nil _ (List.cons_ne_nil _ _),
        List.getLast?_cons_of_ne_nil Nat.toDigits_ne_nil] at hc
      exact Text.isBlank_of_isDigit
        (Text.decimal_of_mem_toDigits (List.mem_of_mem_getLast? hc))
  have start : directoryPrefix.toList.isPrefixOf v.text.toList = false := by
    have apart : ¬ 'r' = d := by
      rintro rfl
      exact absurd head (by decide)
    have letters : directoryPrefix.toList = 'r' :: "ubystubs".toList := rfl
    rw [chars, first, letters, List.cons_append, List.isPrefixOf_cons_cons]
    simp [apart]
  have dotted : ofDotted? v.text.toList = some v := by
    unfold ofDotted?
    rw [chars, Text.takeDigits_append (fun c => Text.isDigit_of_mem_toDigits) (by decide)]
    simp only [Text.takeDigits_of_all (s := Nat.toDigits 10 v.minor)
      fun c => Text.isDigit_of_mem_toDigits, Text.numeral_toDigits]
    simp [Nat.toDigits_ne_nil, isSuffix]
  unfold parse
  simp only [trimmed, start, dotted, Bool.false_eq_true, if_false]

end Version

end RubyIndex
