import Mathlib.Algebra.Group.Nat.Defs
import Mathlib.Data.List.Induction
import RubyIndex.Proofs.DirectoryNames

/-! Which version is read from the name of a version's directory. The name does not show where the
major number ends, and one digit is read as it. So the version itself is read only if its major
number has one digit, and versions share a name if the same digits are cut in different places. -/
namespace RubyIndex

namespace Text

theorem numeral_concat (s : List Char) (c : Char) :
    numeral (s ++ [c]) = 10 * numeral s + numeral [c] := by
  simp [numeral]

theorem numeral_append (s t : List Char) :
    numeral (s ++ t) = numeral s * 10 ^ t.length + numeral t := by
  induction t using List.reverseRecOn with
  | nil => simp [numeral]
  | append_singleton t c ih =>
    rw [← List.append_assoc, numeral_concat, numeral_concat, ih, List.length_append,
      List.length_singleton, Nat.pow_succ, ← Nat.mul_assoc]
    omega

theorem numeral_lt (s : List Char) : numeral s < 10 ^ s.length := by
  induction s using List.reverseRecOn with
  | nil => decide
  | append_singleton s c ih =>
    have last := numeral_singleton_lt c
    rw [numeral_concat, List.length_append, List.length_singleton, Nat.pow_succ]
    omega

end Text

namespace Version

def width (n : Nat) : Nat := (Nat.toDigits 10 n).length

/-- The same digits with the major number cut after the first of them. -/
def recut (v : Version) : Version where
  major := v.major / 10 ^ (width v.major - 1)
  minor := v.major % 10 ^ (width v.major - 1) * 10 ^ width v.minor + v.minor

variable {v w : Version}

theorem toDigits_inj {m n : Nat} : Nat.toDigits 10 m = Nat.toDigits 10 n ↔ m = n := by
  constructor
  · intro same
    rw [← Text.numeral_toDigits m, same, Text.numeral_toDigits]
  · exact congrArg _

theorem ofDirectoryChars?_directoryName_recut (v : Version) :
    ofDirectoryChars? v.directoryName.toList = some v.recut := by
  obtain ⟨d, rest, major⟩ := List.exists_cons_of_ne_nil (@Nat.toDigits_ne_nil v.major 10)
  have digits := @isDigit_of_mem_append_toDigits v
  have later : rest ++ Nat.toDigits 10 v.minor ≠ [] :=
    List.append_ne_nil_of_right_ne_nil _ Nat.toDigits_ne_nil
  have length : width v.major - 1 = rest.length := by rw [width, major, List.length_cons]; rfl
  have value : Text.numeral rest + 10 ^ rest.length * Text.numeral [d] = v.major := by
    rw [Nat.add_comm, Nat.mul_comm, ← Text.numeral_append, List.singleton_append, ← major,
      Text.numeral_toDigits]
  obtain ⟨first, others⟩ := (Nat.div_mod_unique (Nat.pow_pos (by decide))).mpr
    ⟨value, Text.numeral_lt rest⟩
  rw [major, List.cons_append] at digits
  rw [toList_directoryName, major, List.cons_append, ofDirectoryChars?_append digits later,
    Text.numeral_append, Text.numeral_toDigits, recut, length, first, others, width]

theorem recut_eq_self_iff : v.recut = v ↔ v.major < 10 := by
  constructor
  · intro same
    rw [← same]
    exact major_lt_of_ofDirectoryChars? (ofDirectoryChars?_directoryName_recut v)
  · intro single
    exact Option.some.inj ((ofDirectoryChars?_directoryName_recut v).symm.trans
      (ofDirectoryChars?_directoryName single))

/-- The last digits of one major number are the first ones of the other minor number. -/
def Shifted (v w : Version) : Prop := ∃ digits,
  Nat.toDigits 10 w.major = Nat.toDigits 10 v.major ++ digits ∧
    Nat.toDigits 10 v.minor = digits ++ Nat.toDigits 10 w.minor

theorem directoryName_eq_iff_digits : v.directoryName = w.directoryName ↔
    Nat.toDigits 10 v.major ++ Nat.toDigits 10 v.minor =
      Nat.toDigits 10 w.major ++ Nat.toDigits 10 w.minor := by
  rw [← String.toList_inj, toList_directoryName, toList_directoryName, List.append_right_inj]

theorem directoryName_eq_iff_shifted :
    v.directoryName = w.directoryName ↔ v.Shifted w ∨ w.Shifted v := by
  rw [directoryName_eq_iff_digits, List.append_eq_append_iff]
  rfl

/-- With majors of equally many digits different versions have different names. -/
theorem eq_of_directoryName_eq (same : v.directoryName = w.directoryName)
    (width : width v.major = width w.major) : v = w := by
  obtain ⟨major, minor⟩ := List.append_inj (directoryName_eq_iff_digits.mp same) width
  obtain ⟨_, _⟩ := v
  obtain ⟨_, _⟩ := w
  rw [Version.mk.injEq]
  exact ⟨toDigits_inj.mp major, toDigits_inj.mp minor⟩

/-- The name of a version's directory is always read, with its first digit as the major number. That
is the version itself exactly if its major number has one digit. Two versions share a name exactly
if digits are shifted from one number to the other, never with major numbers of equally many digits.
-/
theorem directoryName_read_back_iff (v w : Version) :
    ofDirectoryName v.directoryName = .ok v.recut ∧
      (ofDirectoryName v.directoryName = .ok v ↔ v.major < 10) ∧
      (v.directoryName = w.directoryName ↔ v.Shifted w ∨ w.Shifted v) ∧
      (v.directoryName = w.directoryName ∧ width v.major = width w.major ↔ v = w) := by
  have read : ofDirectoryName v.directoryName = .ok v.recut :=
    ofDirectoryName_eq_ok_iff.mpr (ofDirectoryChars?_directoryName_recut v)
  refine ⟨read, ?_, directoryName_eq_iff_shifted, ?_⟩
  · rw [read, Except.ok.injEq, recut_eq_self_iff]
  · constructor
    · rintro ⟨same, width⟩
      exact eq_of_directoryName_eq same width
    · rintro rfl
      exact ⟨rfl, rfl⟩

/-- The name of 10.3 is read as another version, and 13.0 has a name with 1.30 in common. -/
theorem two_digit_major_not_read_back :
    parse "10.3" = .ok ⟨10, 3⟩ ∧ ofDirectoryName (directoryName ⟨10, 3⟩) = .ok ⟨1, 3⟩ ∧
      parse "13.0" = .ok ⟨13, 0⟩ ∧ parse "1.30" = .ok ⟨1, 30⟩ ∧
      directoryName ⟨13, 0⟩ = directoryName ⟨1, 30⟩ := by
  decide

end Version

end RubyIndex
