import RubyIndex.Proofs.AcceptedTexts
import RubyIndex.Proofs.ScannedTokens
import RubyIndex.Proofs.TrimmedTexts

/-! Splitting a parameter list. Its tokens say whether it splits, into which parts, and what is
wrong with it if it does not. Each part is a parameter list that splits into itself. -/
namespace RubyIndex.Parameter

section Segments

variable {ts more : List Token} {t : Token} {c : Char} {depth : Nat}

theorem inert_of_isBlank (blank : Text.isBlank c = true) : Inert c :=
  inert_of_not_isSpecial (isSpecial_of_isBlank blank)

theorem Inert.ne_comma (h : Inert c) : c ≠ ',' := by
  rintro rfl
  exact h (by decide)

theorem Inert.bracket?_plain (h : Inert c) : (Token.plain c).bracket? = none :=
  bracket?_plain_eq_none h.bracket?_eq_none.1 h.bracket?_eq_none.2

theorem brackets_append (ts more : List Token) :
    brackets (ts ++ more) = brackets ts ++ brackets more := List.filterMap_append

theorem segmentsAt_bare (bare : t.bracket? = none) (joins : t ≠ .plain ',') (depth : Nat)
    (ts : List Token) : segmentsAt depth (t :: ts) = (segmentsAt depth ts).modifyHead (t :: ·) := by
  rw [segmentsAt_cons (fun splits => joins splits.1), Token.depthAfter, bare]

/-- A token that does not split the list is in the same segment as the token after it. -/
theorem segmentsAt_cons_single (joins : ¬(t = .plain ',' ∧ depth = 0)) :
    segmentsAt depth (t :: ts) = [t :: ts] ↔ segmentsAt (t.depthAfter depth) ts = [ts] := by
  obtain ⟨seg, segs, eq⟩ := exists_segmentsAt (t.depthAfter depth) ts
  rw [segmentsAt_cons joins, eq]
  simp

theorem joins_of_single (single : segmentsAt depth (t :: ts) = [t :: ts]) :
    ¬(t = .plain ',' ∧ depth = 0) := by
  rintro ⟨rfl, rfl⟩
  rw [segmentsAt_comma] at single
  cases single

theorem whole_cons_iff (bare : t.bracket? = none) (joins : t ≠ .plain ',')
    (closed : t.isUnclosed = false) : Whole (t :: ts) ↔ Whole ts := by
  have nested : brackets (t :: ts) = brackets ts := by
    rw [brackets_cons, bare]
    rfl
  have single : segmentsAt 0 (t :: ts) = [t :: ts] ↔ segmentsAt 0 ts = [ts] := by
    rw [segmentsAt_cons_single fun splits => joins splits.1, Token.depthAfter, bare]
  have closes : Closed (t :: ts) ↔ Closed ts := List.forall_mem_cons.trans (and_iff_right closed)
  constructor
  · intro h
    exact ⟨nested ▸ h.nested, closes.mp h.closed, single.mp h.single⟩
  · intro h
    exact ⟨nested ▸ h.nested, closes.mpr h.closed, single.mpr h.single⟩

/-- A list that is one segment begins with lists that are. -/
theorem segmentsAt_of_append (single : segmentsAt depth (ts ++ more) = [ts ++ more]) :
    segmentsAt depth ts = [ts] := by
  induction ts generalizing depth with
  | nil => rfl
  | cons t ts ih =>
    have joins := joins_of_single single
    rw [List.cons_append, segmentsAt_cons_single joins] at single
    exact (segmentsAt_cons_single joins).mpr (ih single)

theorem Whole.of_append (h : Whole (ts ++ more)) (bare : brackets more = []) : Whole ts := by
  have nested := h.nested
  rw [brackets_append, bare, List.append_nil] at nested
  exact ⟨nested, (closed_append.mp h.closed).1, segmentsAt_of_append h.single⟩

/-- A character that does nothing to the scan may stand before a segment. -/
theorem whole_cons_inert_iff {s : List Char} (inert : Inert c) :
    Whole (tokens (c :: s)) ↔ Whole (tokens s) := by
  rw [tokens_plain inert.lone]
  exact whole_cons_iff inert.bracket?_plain
    (fun comma => inert.ne_comma (Token.plain.inj comma)) rfl

/-- Trimming a text that is one segment leaves one. -/
theorem whole_trim {s : List Char} (whole : Whole (tokens s)) : Whole (tokens (Text.trim s)) := by
  refine Text.trim_of_closed (P := fun s => Whole (tokens s)) ?_ ?_ whole
  · intro b s blank whole
    have inert := inert_of_isBlank blank
    exact (whole_cons_inert_iff inert).mp whole
  · intro b s blank whole
    have inert := inert_of_isBlank blank
    have closed := closed_of_append_blank blank whole.closed
    have apart : ∀ c ∈ [b].head?, isSpecial c = false := by
      rintro _ ⟨⟩
      exact isSpecial_of_isBlank blank
    rw [tokens_append closed fun _ => apart, tokens_plain inert.lone, tokens_nil] at whole
    refine whole.of_append ?_
    rw [brackets_cons, inert.bracket?_plain]
    rfl

end Segments

def segmentTexts (list : List Char) : List (List Char) := (segmentsAt 0 (tokens list)).map textOf

variable {list : List Char} {text part : String} {parts : List String}

theorem intercalate_segmentTexts (list : List Char) :
    [','].intercalate (segmentTexts list) = list := by
  rw [segmentTexts, ← textOf_intercalate, intercalate_segmentsAt, textOf_tokens]

/-- Whether a list splits: brackets and string literals are closed as they should be, and no
parameter is missing. -/
structure Splits (list : List Char) : Prop where
  nested : Nested (brackets (tokens list))
  closed : Closed (tokens list)
  filled : Text.blankText list = true ∨ ∀ s ∈ segmentTexts list, Text.blankText s = false

/-- What is wrong with a list that does not split. -/
inductive Defect (list : List Char) : SplitFault → Prop
  | unexpected {closer : Char} (first : FirstStray (brackets (tokens list)) closer) :
      Defect list (.unexpected closer)
  | unterminated (sound : Sound (brackets (tokens list))) (unclosed : ¬Closed (tokens list)) :
      Defect list .unterminatedString
  | unclosed {opener : Char} (sound : Sound (brackets (tokens list)))
      (closed : Closed (tokens list)) (innermost : Innermost (brackets (tokens list)) opener) :
      Defect list (.unclosed opener)
  | empty (nested : Nested (brackets (tokens list))) (closed : Closed (tokens list))
      (listed : Text.blankText list = false) {s : List Char} (hs : s ∈ segmentTexts list)
      (blank : Text.blankText s = true) : Defect list .emptyParameter

def partsOf (list : List Char) : List (List Char) :=
  if Text.blankText list then [] else (segmentTexts list).map Text.trim

theorem segmentTexts_of_blank (blank : Text.blankText list = true) :
    segmentTexts list = [list] := by
  have read : segments list = .ok [list] := segmentsFrom_blank blank []
  exact (segments_eq_ok_iff.mp read).2.2.symm

theorem map_trim_segmentTexts_iff :
    (segmentTexts list).map Text.trim = [[]] ↔ Text.blankText list = true := by
  constructor
  · intro none
    obtain ⟨s, eq, empty⟩ := List.map_eq_singleton_iff.mp none
    have joined := intercalate_segmentTexts list
    rw [eq, List.intercalate_singleton] at joined
    exact joined ▸ Text.trim_eq_nil_iff.mp empty
  · intro blank
    rw [segmentTexts_of_blank blank, List.map_singleton, Text.trim_eq_nil_iff.mpr blank]

theorem exists_empty_iff : ((segmentTexts list).map Text.trim).any List.isEmpty = true ↔
    ∃ s ∈ segmentTexts list, Text.blankText s = true := by
  simp [← Text.trim_eq_nil_iff]

theorem splitChars_of_segments (nested : Nested (brackets (tokens list)))
    (closed : Closed (tokens list)) : splitChars list =
      if Text.blankText list then .ok []
      else if ((segmentTexts list).map Text.trim).any List.isEmpty then .error .emptyParameter
      else .ok ((segmentTexts list).map Text.trim) := by
  have read : segments list = .ok (segmentTexts list) :=
    segments_eq_ok_iff.mpr ⟨nested, closed, rfl⟩
  simp only [splitChars, read, bind, Except.bind, map_trim_segmentTexts_iff]

/-- A list splits exactly if nothing is wrong with its tokens, and then into its segments, trimmed.
-/
theorem splitChars_eq_ok_iff {parts : List (List Char)} :
    splitChars list = .ok parts ↔ Splits list ∧ parts = partsOf list := by
  constructor
  · intro h
    cases read : segments list with
    | error fault =>
      rw [splitChars, read] at h
      cases h
    | ok segs =>
      obtain ⟨nested, closed, -⟩ := segments_eq_ok_iff.mp read
      rw [splitChars_of_segments nested closed] at h
      unfold partsOf
      split at h
      · next blank =>
        cases h
        exact ⟨⟨nested, closed, .inl blank⟩, (if_pos blank).symm⟩
      · next listed =>
        split at h
        · cases h
        · next filled =>
          cases h
          rw [exists_empty_iff] at filled
          exact ⟨⟨nested, closed, .inr (by simpa using filled)⟩, (if_neg listed).symm⟩
  · rintro ⟨⟨nested, closed, filled⟩, rfl⟩
    rw [splitChars_of_segments nested closed, partsOf]
    split
    · rfl
    · next listed =>
      have filled := filled.resolve_left listed
      rw [if_neg]
      rw [exists_empty_iff]
      rintro ⟨s, hs, blank⟩
      exact nomatch blank.symm.trans (filled s hs)

theorem defect_of_segments {fault : SplitFault} (h : segments list = .error fault) :
    Defect list fault := by
  rw [segments, segmentsFrom_eq_reported, reported] at h
  cases ran : closeAll [] (brackets (tokens list)) with
  | error closer =>
    rw [ran] at h
    cases h
    exact .unexpected (closeAll_eq_error_iff.mp ran)
  | ok left =>
    have sound := sound_of_closeAll ran
    simp only [ran] at h
    split at h
    · next unclosed =>
      cases h
      exact .unterminated sound (not_closed_iff.mpr unclosed)
    · next ends =>
      cases left with
      | nil => cases h
      | cons opener left =>
        cases h
        exact .unclosed sound (by_contra fun open_ => ends (not_closed_iff.mp open_))
          ((innermost_iff ran).mpr rfl)

/-- What is reported of a list that does not split is what is wrong with it. -/
theorem splitChars_eq_error_iff {fault : SplitFault} :
    splitChars list = .error fault ↔ Defect list fault := by
  constructor
  · intro h
    cases read : segments list with
    | error fault' =>
      rw [splitChars, read] at h
      cases h
      exact defect_of_segments read
    | ok segs =>
      obtain ⟨nested, closed, -⟩ := segments_eq_ok_iff.mp read
      rw [splitChars_of_segments nested closed] at h
      split at h
      · cases h
      · next listed =>
        split at h
        · next empty =>
          cases h
          obtain ⟨s, hs, blank⟩ := exists_empty_iff.mp empty
          exact .empty nested closed (by simpa using listed) hs blank
        · cases h
  · intro h
    have stopped (fault : SplitFault) (h : segments list = .error fault) :
        splitChars list = .error fault := by
      rw [splitChars, h]
      rfl
    cases h with
    | unexpected first =>
      apply stopped
      rw [segments, segmentsFrom_eq_reported, reported, closeAll_eq_error_iff.mpr first]
    | unterminated sound unclosed =>
      obtain ⟨left, ran⟩ := exists_closeAll_iff.mpr sound
      apply stopped
      simp only [segments, segmentsFrom_eq_reported, reported, ran, not_closed_iff.mp unclosed,
        if_true]
    | unclosed sound ends innermost =>
      obtain ⟨left, ran⟩ := exists_closeAll_iff.mpr sound
      have first := (innermost_iff ran).mp innermost
      apply stopped
      simp only [segments, segmentsFrom_eq_reported, reported, ran]
      rw [if_neg fun unclosed => not_closed_iff.mpr unclosed ends]
      cases left with
      | nil => cases first
      | cons opener left =>
        cases first
        rfl
    | empty nested ends listed hs blank =>
      rw [splitChars_of_segments nested ends, if_neg (by simp [listed]),
        if_pos (exists_empty_iff.mpr ⟨_, hs, blank⟩)]

theorem splitChars_of_whole (whole : Whole (tokens list)) (trimmed : Text.trim list = list)
    (written : list ≠ []) : splitChars list = .ok [list] := by
  obtain ⟨nested, closed, single⟩ := segments_eq_ok_iff.mp (segments_of_whole whole)
  have listed : ¬Text.blankText list = true := by
    rwa [← Text.trim_eq_nil_iff, trimmed]
  have filled : ¬([list].map Text.trim).any List.isEmpty = true := by
    simpa [trimmed] using written
  rw [splitChars_of_segments nested closed, if_neg listed, segmentTexts, ← single, if_neg filled,
    List.map_singleton, trimmed]

/-- Each part of a list that splits is a segment by itself. -/
theorem whole_of_mem_partsOf (h : Splits list) {part : List Char} (hp : part ∈ partsOf list) :
    Whole (tokens part) ∧ Text.trim part = part ∧ part ≠ [] := by
  unfold partsOf at hp
  split at hp
  · cases hp
  · next listed =>
    obtain ⟨s, hs, rfl⟩ := List.mem_map.mp hp
    have filled := h.filled.resolve_left listed s hs
    obtain ⟨seg, hseg, rfl⟩ := List.mem_map.mp hs
    refine ⟨whole_trim ?_, Text.trim_trim _, ?_⟩
    · rw [tokens_of_mem_segmentsAt hseg]
      exact whole_of_mem_segmentsAt h.nested h.closed seg hseg
    · rw [ne_eq, Text.trim_eq_nil_iff, filled]
      exact Bool.false_ne_true

theorem split_eq_ok_iff {text : String} {parts : List String} :
    split text = .ok parts ↔
      Splits text.toList ∧ parts.map String.toList = partsOf text.toList := by
  unfold split
  rw [← splitChars_eq_ok_iff]
  cases splitChars text.toList with
  | error fault => simp
  | ok found =>
    simp only [Except.ok.injEq]
    constructor
    · rintro rfl
      simp
    · rintro rfl
      simp

theorem split_eq_error_iff {text : String} {e : Unbalanced} :
    split text = .error e ↔ e.parameters = text ∧ Defect text.toList e.fault := by
  obtain ⟨parameters, fault⟩ := e
  unfold split
  rw [← splitChars_eq_error_iff]
  cases splitChars text.toList with
  | ok found => simp
  | error found => simpa using and_congr_left fun _ => eq_comm

/-- Reading the string literals and special globals of a list from left to right, it splits exactly
if the brackets between them are well nested, no literal is left open and no segment is blank,
unless all of it is. The parts are the segments, trimmed, each of which splits into itself alone.
What is reported of other lists is what is wrong with them. -/
theorem split_reads_tokens (text : String) :
    ((∃ parts, split text = .ok parts) ↔ Splits text.toList) ∧
      (∀ parts, split text = .ok parts → parts.map String.toList = partsOf text.toList ∧
        ∀ part ∈ parts, split part = .ok [part]) ∧
      [','].intercalate (segmentTexts text.toList) = text.toList ∧
      ∀ e, split text = .error e ↔ e.parameters = text ∧ Defect text.toList e.fault := by
  refine ⟨⟨?_, ?_⟩, ?_, intercalate_segmentTexts _, fun e => split_eq_error_iff⟩
  · rintro ⟨parts, read⟩
    exact (split_eq_ok_iff.mp read).1
  · intro splits
    refine ⟨(partsOf text.toList).map String.ofList, split_eq_ok_iff.mpr ⟨splits, ?_⟩⟩
    simp
  · intro parts read
    obtain ⟨splits, same⟩ := split_eq_ok_iff.mp read
    refine ⟨same, fun part hp => ?_⟩
    have listed : part.toList ∈ partsOf text.toList := same ▸ List.mem_map_of_mem hp
    obtain ⟨whole, trimmed, written⟩ := whole_of_mem_partsOf splits listed
    rw [split, splitChars_of_whole whole trimmed written]
    simp

def penList : String := "pen = $, , ink = \"),\", (x, y)"

theorem pen_list_splits :
    split penList = .ok ["pen = $,", "ink = \"),\"", "(x, y)"] ∧ Splits penList.toList ∧
      split "ink = \"),\"" = .ok ["ink = \"),\""] := by
  have read : split penList = .ok ["pen = $,", "ink = \"),\"", "(x, y)"] := by decide
  obtain ⟨splits, parts, -, -⟩ := split_reads_tokens penList
  exact ⟨read, splits.mp ⟨_, read⟩, (parts _ read).2 _ (by simp)⟩

end RubyIndex.Parameter
