import RubyIndex.Proofs.TrimmedTexts
import RubyIndex.Server.Excerpt

/-! What is left of a text that is cut: half of the allowed characters at either end, with the
marker between them. A limit of one character allows nothing at the end, which stands for all of the
text, so that such a text gets longer instead. -/
namespace RubyIndex.Server

open Text (trim trimLeft trimRight blankText)

variable {limit : Int} {s r first last : List Char}

def gap : List Char := ['\n', '\n']

def joinEnds (first last : List Char) : List Char :=
  trimLeft (first ++ gap) ++ truncationMarker.toList ++ trimRight (gap ++ last)

/-- A text is left as it is unless it is longer than allowed. Else a part at its start and one at
its end are left, which together are not longer. -/
structure Shortened (limit : Int) (s r : List Char) : Prop where
  whole : s.length ≤ limit → r = s
  ends : limit < s.length → ∃ first last, first <+: s ∧ last <:+ s ∧
    first.length + last.length ≤ limit ∧ r = joinEnds first last

/-- The marker begins with two dots and ends with one. -/
theorem truncationMarker_dots : (∃ rest, truncationMarker.toList = '.' :: '.' :: rest) ∧
    truncationMarker.toList.getLast? = some '.' := by
  have dots : truncationMarker.toList.take 2 = ['.', '.'] ∧
      truncationMarker.toList.getLast? = some '.' := by decide +kernel
  have parts := List.take_append_drop 2 truncationMarker.toList
  rw [dots.1, List.cons_append, List.singleton_append] at parts
  exact ⟨⟨_, parts.symm⟩, dots.2⟩

theorem trimmed_truncationMarker : Text.Trimmed truncationMarker.toList := by
  obtain ⟨⟨rest, start⟩, last⟩ := truncationMarker_dots
  constructor
  · rw [start]
    rintro c ⟨⟩
    decide
  · rw [last]
    rintro c ⟨⟩
    decide

theorem trim_joinEnds (first last : List Char) :
    trim (first ++ gap ++ truncationMarker.toList ++ gap ++ last) = joinEnds first last := by
  obtain ⟨⟨rest, dots⟩, -⟩ := truncationMarker_dots
  have written : truncationMarker.toList ≠ [] := by rw [dots]; exact List.cons_ne_nil _ _
  rw [List.append_assoc _ gap last, Text.trim_append_append trimmed_truncationMarker written,
    joinEnds]

theorem truncateChars_of_short (short : s.length ≤ limit) : truncateChars limit s = s := by
  simp [truncateChars, short]

theorem truncateChars_of_long (positive : 1 ≤ limit) (long : limit < s.length) :
    truncateChars limit s =
      joinEnds (s.take (limit.toNat / 2)) (lastPart (limit.toNat / 2) s) := by
  have cut : ¬(limit ≤ 0 ∨ (s.length : Int) ≤ limit) := by omega
  rw [← trim_joinEnds]
  simp only [truncateChars, Bool.or_eq_true, decide_eq_true_eq, cut, if_false]
  rfl

theorem length_joinEnds_le (first last : List Char) :
    (joinEnds first last).length ≤ first.length + last.length + truncationMarker.length + 4 := by
  have left := Text.length_trimLeft_le (first ++ gap)
  have right := Text.length_trimRight_le (gap ++ last)
  have two : gap.length = 2 := rfl
  rw [List.length_append, two] at left right
  rw [joinEnds, List.length_append, List.length_append, String.length_toList]
  omega

theorem trimRight_gap_append (last : List Char) :
    trimRight (gap ++ last) = if blankText last then [] else gap ++ trimRight last := by
  split
  · next blank =>
    have all : blankText (gap ++ last) = true := by
      rw [blankText, List.all_append, show last.all Text.isBlank = true from blank]
      rfl
    exact Text.trimRight_eq_nil_iff.mpr all
  · next visible => exact Text.trimRight_append_of_visible visible

/-- Half of a limit of one is nothing at the start and all of the text at the end. -/
theorem truncateChars_one (long : 1 < s.length) : truncateChars 1 s = joinEnds [] s := by
  have long : (1 : Int) < s.length := by exact_mod_cast long
  exact truncateChars_of_long (by decide) long

/-- Of an empty start not even the line breaks after it are left. -/
theorem joinEnds_nil (last : List Char) :
    joinEnds [] last = truncationMarker.toList ++ trimRight (gap ++ last) := by
  have start : trimLeft ([] ++ gap) = [] := rfl
  rw [joinEnds, start, List.nil_append]

/-- With one character allowed, the marker with all of a text after it is no shortened text if
something of the text is to be seen. -/
theorem blank_of_shortened_one (long : 1 < s.length) (h : Shortened 1 s (joinEnds [] s)) :
    blankText s = true := by
  obtain ⟨first, last, -, ⟨before, cut⟩, short, same⟩ := h.ends (by exact_mod_cast long)
  by_contra visible
  rw [joinEnds_nil, trimRight_gap_append, if_neg visible] at same
  cases first with
  | nil =>
    -- the end shows as much as the whole text, and so is the whole text
    rw [joinEnds_nil, List.append_cancel_left_eq, trimRight_gap_append] at same
    split at same
    · exact absurd same (by simp [gap])
    · next shown =>
      rw [List.append_cancel_left_eq, ← cut, Text.trimRight_append_of_visible shown] at same
      have none : before = [] := List.append_left_eq_self.mp same
      rw [none, List.nil_append] at cut
      rw [cut, List.length_nil] at short
      omega
  | cons c rest =>
    have single : rest = [] ∧ last = [] := by
      rw [List.length_cons] at short
      exact ⟨List.eq_nil_of_length_eq_zero (by omega), List.eq_nil_of_length_eq_zero (by omega)⟩
    obtain ⟨rfl, rfl⟩ := single
    have after : trimRight (gap ++ []) = [] := rfl
    rw [joinEnds, after, List.append_nil, List.singleton_append, trimLeft,
      List.dropWhile_cons] at same
    split at same
    · have start : gap.dropWhile Text.isBlank = [] := rfl
      rw [start, List.nil_append, List.append_right_eq_self] at same
      exact absurd same (by simp [gap])
    · -- the second character is a dot on one side and a line break on the other
      obtain ⟨⟨rest, marker⟩, -⟩ := truncationMarker_dots
      rw [marker, gap] at same
      simp at same

theorem length_joinEnds_nil (s : List Char) :
    ((joinEnds [] s).length : Int) ≤ 1 + truncationMarker.length + 4 ↔
      (trimRight s).length ≤ 3 := by
  rw [joinEnds_nil, List.length_append, String.length_toList, trimRight_gap_append]
  split
  · next blank =>
    rw [Text.trimRight_eq_nil_iff.mpr blank, List.length_nil]
    omega
  · rw [List.length_append, show gap.length = 2 from rfl]
    omega

theorem lastPart_of_pos {count : Nat} (some : 0 < count) (s : List Char) :
    lastPart count s = s.drop (s.length - count) := by
  rw [lastPart, if_neg (by omega)]

/-- With two characters allowed or more, each end has half of them. -/
theorem truncateChars_halves (two : 2 ≤ limit) (long : limit < s.length) :
    truncateChars limit s = joinEnds (s.take (limit.toNat / 2))
      (s.drop (s.length - limit.toNat / 2)) := by
  rw [truncateChars_of_long (by omega) long, lastPart_of_pos (by omega)]

theorem shortened_of_two_le (two : 2 ≤ limit) (s : List Char) :
    Shortened limit s (truncateChars limit s) where
  whole := truncateChars_of_short
  ends long := by
    refine ⟨_, _, List.take_prefix _ _, List.drop_suffix _ _, ?_, truncateChars_halves two long⟩
    rw [List.length_take, List.length_drop]
    omega

theorem Shortened.length_le (h : Shortened limit s r) :
    (r.length : Int) ≤ limit + truncationMarker.length + 4 := by
  by_cases short : (s.length : Int) ≤ limit
  · rw [h.whole short]
    omega
  · obtain ⟨first, last, -, -, together, rfl⟩ := h.ends (by omega)
    have most := length_joinEnds_le first last
    omega

theorem shortened_truncateChars_one_iff :
    Shortened 1 s (truncateChars 1 s) ↔ s.length ≤ 1 ∨ blankText s = true := by
  rcases le_or_gt s.length 1 with short | long
  · refine ⟨fun _ => .inl short, fun _ => ⟨truncateChars_of_short, fun long => ?_⟩⟩
    omega
  · rw [truncateChars_one long]
    constructor
    · exact fun h => .inr (blank_of_shortened_one long h)
    · intro h
      have blank : blankText s = true := h.resolve_left (by omega)
      refine ⟨fun short => by omega, fun _ => ⟨[], [], List.nil_prefix, List.nil_suffix, ?_, ?_⟩⟩
      · decide
      · rw [joinEnds_nil, joinEnds_nil, trimRight_gap_append, if_pos blank]
        rfl

theorem length_truncateChars_one_iff :
    ((truncateChars 1 s).length : Int) ≤ 1 + truncationMarker.length + 4 ↔
      (trimRight s).length ≤ 3 := by
  rcases le_or_gt s.length 1 with short | long
  · have shorter := Text.length_trimRight_le s
    rw [truncateChars_of_short (by omega)]
    omega
  · rw [truncateChars_one long, length_joinEnds_nil]

theorem toList_truncate (limit : Int) (text : String) :
    (truncate limit text).toList = truncateChars limit text.toList := String.toList_ofList

/-- Cutting a text keeps two ends of it, which together are as long as allowed at most, and the
marker adds a fixed number of characters. This fails only for a limit of one, where the marker is
put before the whole text. -/
theorem truncate_shortens_iff (positive : 1 ≤ limit) (text : String) :
    (Shortened limit text.toList (truncate limit text).toList ↔
        (limit = 1 → text.length ≤ 1 ∨ blankText text.toList = true)) ∧
      (((truncate limit text).length : Int) ≤ limit + truncationMarker.length + 4 ↔
        (limit = 1 → (trimRight text.toList).length ≤ 3)) ∧
      (limit ≠ 1 → limit < text.length →
        (truncate limit text).toList = joinEnds (text.toList.take (limit.toNat / 2))
          (text.toList.drop (text.length - limit.toNat / 2))) := by
  have length := @String.length_toList
  rw [← length, ← length, toList_truncate]
  rcases eq_or_ne limit 1 with rfl | other
  · refine ⟨?_, ?_, fun other => absurd rfl other⟩
    · rw [shortened_truncateChars_one_iff, forall_prop_of_true rfl]
    · rw [length_truncateChars_one_iff, forall_prop_of_true rfl]
  · have two : 2 ≤ limit := by omega
    have shortened := shortened_of_two_le two text.toList
    refine ⟨iff_of_true shortened fun one => absurd one other,
      iff_of_true shortened.length_le fun one => absurd one other, fun _ long => ?_⟩
    exact truncateChars_halves two long

/-- Of the alphabet ten characters are left, which stand around the marker. -/
theorem alphabet_shortened : (1 : Int) ≤ 10 ∧
    Shortened 10 "abcdefghijklmnopqrstuvwxyz".toList
      (truncate 10 "abcdefghijklmnopqrstuvwxyz").toList ∧
    (truncate 10 "abcdefghijklmnopqrstuvwxyz").toList =
      "abcde\n\n".toList ++ truncationMarker.toList ++ "\n\nvwxyz".toList := by
  obtain ⟨shortened, -, halves⟩ := @truncate_shortens_iff 10 (by decide)
    "abcdefghijklmnopqrstuvwxyz"
  refine ⟨by decide, shortened.mpr (fun one => absurd one (by decide)), ?_⟩
  rw [halves (by decide) (by decide)]
  rfl

/-- With one character allowed, four characters become longer than any shortened text. -/
theorem one_character_limit_keeps_text :
    truncate 1 "abcd" = truncationMarker ++ "\n\nabcd" ∧
      ¬ Shortened 1 "abcd".toList (truncate 1 "abcd").toList ∧
      ¬ ((truncate 1 "abcd").length : Int) ≤ 1 + truncationMarker.length + 4 := by
  refine ⟨?_, ?_, ?_⟩
  · have after : trimRight (gap ++ "abcd".toList) = "\n\nabcd".toList := by decide
    rw [← String.toList_inj, toList_truncate, truncateChars_one (by decide), joinEnds_nil, after,
      String.toList_append]
  · rw [toList_truncate, shortened_truncateChars_one_iff]
    decide
  · rw [← String.length_toList, toList_truncate, length_truncateChars_one_iff]
    decide

end RubyIndex.Server
