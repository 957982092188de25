import RubyIndex.Proofs.MixinStatements
import RubyIndex.Proofs.WrittenParameters

/-! Rendered parameter lists. A list is read back from its rendered text, unless the mark of a rest
parameter and its name run together or a `$` takes along the comma behind it. -/
namespace RubyIndex.Parameter

open Text

variable {s r next : List Char} {rs : List (List Char)} {ts more : List Token}
  {opened : List Char} {p : Parameter} {ps : List Parameter}

theorem whole_append_iff {head : List Char} (inert : ∀ c ∈ head, Inert c) :
    Whole (tokens (head ++ s)) ↔ Whole (tokens s) := by
  induction head with
  | nil => rfl
  | cons c head ih =>
    obtain ⟨first, others⟩ := List.forall_mem_cons.mp inert
    rw [List.cons_append, whole_cons_inert_iff first, ih others]

/-- A parameter is rendered as one segment if it is written as one. -/
theorem Written.whole_render (h : Written s p) (whole : Whole (tokens s)) :
    Whole (tokens p.render.toList) := by
  obtain ⟨head, head', tail, inert, inert', rfl, eq⟩ := h.exists_tail
  rw [eq, whole_append_iff inert']
  exact (whole_append_iff inert).mp whole

/-- A text that ends in a `$` which would take the next character along. -/
def Dangling (s : List Char) : Prop := (tokens s).getLast? = some (.plain '$')

instance (s : List Char) : Decidable (Dangling s) := inferInstanceAs (Decidable (_ = _))

def joined (rs : List (List Char)) : List Char := [',', ' '].intercalate rs

theorem joined_cons (r next : List Char) (rs : List (List Char)) :
    joined (r :: next :: rs) = r ++ ',' :: ' ' :: joined (next :: rs) := by
  simp [joined, List.intercalate_cons_cons]

/-- What follows a list that is one segment joins it up to the first comma. -/
theorem segmentsAt_append (closes : closeAll opened (brackets ts) = .ok [])
    (single : segmentsAt opened.length ts = [ts]) (more : List Token) :
    segmentsAt opened.length (ts ++ more) = (segmentsAt 0 more).modifyHead (ts ++ ·) := by
  induction ts generalizing opened with
  | nil =>
    cases closes
    obtain ⟨seg, segs, eq⟩ := exists_segmentsAt 0 more
    rw [List.nil_append, List.length_nil, eq]
    rfl
  | cons t ts ih =>
    have joins := joins_of_single single
    obtain ⟨opened', first, rest⟩ := exists_closeAll_cons closes
    have depth := depthAfter_of_closeAll first
    have behind := (segmentsAt_cons_single joins).mp single
    rw [depth] at behind
    rw [List.cons_append, segmentsAt_cons joins, depth, ih rest behind, List.modifyHead_modifyHead]
    rfl

theorem Whole.segmentsAt_append (whole : Whole ts) (more : List Token) :
    segmentsAt 0 (ts ++ more) = (segmentsAt 0 more).modifyHead (ts ++ ·) := by
  have closes : closeAll [] (brackets ts) = .ok [] := closeAll_eq_nil_iff.mpr whole.nested
  exact Parameter.segmentsAt_append closes whole.single more

theorem tokens_joined_fresh (closed : Closed (tokens r)) (fresh : ¬Dangling r) (s : List Char) :
    tokens (r ++ ',' :: ' ' :: s) = tokens r ++ .plain ',' :: .plain ' ' :: tokens s := by
  have comma : ¬Starts ',' := by simp [Starts, isStringMark]
  have space : ¬Starts ' ' := Inert.lone (by decide)
  rw [tokens_append closed fun dollar => absurd dollar fresh, tokens_plain comma,
    tokens_plain space]

/-- Only the last of several `$` can dangle. -/
theorem fresh_of_dangling (h : tokens r = ts ++ [.plain '$']) : ¬Dangling (textOf ts) := by
  intro dangling
  rw [Dangling, (tokens_cut h).1] at dangling
  obtain ⟨first, rfl⟩ := List.getLast?_eq_some_iff.mp dangling
  rw [List.append_assoc] at h
  have pair : tokens ['$', '$'] = [.plain '$', .plain '$'] := (tokens_cut h).2
  rw [tokens_special (by decide)] at pair
  cases pair

theorem tokens_joined_dangling (closed : Closed (tokens r)) (dangling : Dangling r)
    (s : List Char) : ∃ ts, tokens r = ts ++ [.plain '$'] ∧
      tokens (r ++ ',' :: ' ' :: s) = ts ++ .special ',' :: .plain ' ' :: tokens s := by
  have space : ¬Starts ' ' := Inert.lone (by decide)
  obtain ⟨ts, eq⟩ := List.getLast?_eq_some_iff.mp dangling
  have before := (tokens_cut eq).1
  have fresh := fresh_of_dangling eq
  have written : r = textOf ts ++ ['$'] := by
    rw [← textOf_tokens r, eq, textOf_append]
    rfl
  rw [eq, closed_append, ← before] at closed
  refine ⟨ts, eq, ?_⟩
  rw [written, List.append_assoc, List.singleton_append,
    tokens_append closed.1 fun dollar => absurd dollar fresh, before, tokens_special (by decide),
    tokens_plain space]

/-- How many segments a joined list has. -/
theorem length_segmentTexts_joined (whole : ∀ s ∈ r :: rs, Whole (tokens s)) :
    (segmentTexts (joined (r :: rs))).length =
      (r :: rs).dropLast.countP (fun s => ¬Dangling s) + 1 := by
  unfold segmentTexts
  rw [List.length_map]
  induction rs generalizing r with
  | nil => simp [joined, (whole r (by simp)).single]
  | cons next rs ih =>
    obtain ⟨first, others⟩ := List.forall_mem_cons.mp whole
    have rest := ih others
    rw [joined_cons, List.dropLast_cons_cons, List.countP_cons]
    by_cases dangling : Dangling r
    · obtain ⟨ts, eq, tokens_eq⟩ :=
        tokens_joined_dangling first.closed dangling (joined (next :: rs))
      have before : Whole ts := (eq ▸ first).of_append rfl
      rw [tokens_eq, before.segmentsAt_append, List.length_modifyHead,
        segmentsAt_bare rfl (by decide), List.length_modifyHead, segmentsAt_bare rfl (by decide),
        List.length_modifyHead, rest]
      simp [dangling]
    · rw [tokens_joined_fresh first.closed dangling, first.segmentsAt_append,
        List.length_modifyHead, segmentsAt_comma, List.length_cons, segmentsAt_bare rfl (by decide),
        List.length_modifyHead, rest]
      simp [dangling]

/-- A joined list has its parts as segments if none of them takes the comma behind it along. -/
theorem segmentTexts_joined (whole : ∀ s ∈ r :: rs, Whole (tokens s))
    (fresh : ∀ s ∈ (r :: rs).dropLast, ¬Dangling s) :
    Nested (brackets (tokens (joined (r :: rs)))) ∧ Closed (tokens (joined (r :: rs))) ∧
      segmentTexts (joined (r :: rs)) = r :: rs.map (' ' :: ·) := by
  induction rs generalizing r with
  | nil =>
    have alone : joined [r] = r := List.intercalate_singleton
    obtain ⟨nested, closed, single⟩ := whole r List.mem_cons_self
    rw [alone]
    exact ⟨nested, closed, by simp [segmentTexts, single, textOf_tokens]⟩
  | cons next rs ih =>
    obtain ⟨first, others⟩ := List.forall_mem_cons.mp whole
    rw [List.dropLast_cons_cons] at fresh
    obtain ⟨here, later⟩ := List.forall_mem_cons.mp fresh
    obtain ⟨nested, closed, texts⟩ := ih others later
    rw [joined_cons, segmentTexts, tokens_joined_fresh first.closed here]
    refine ⟨?_, ?_, ?_⟩
    · rw [brackets_append]
      exact first.nested.append nested
    · exact closed_append.mpr ⟨first.closed,
        List.forall_mem_cons.mpr ⟨rfl, List.forall_mem_cons.mpr ⟨rfl, closed⟩⟩⟩
    · obtain ⟨seg, segs, eq⟩ := exists_segmentsAt 0 (tokens (joined (next :: rs)))
      rw [segmentTexts, eq, List.map_cons] at texts
      obtain ⟨text, texts⟩ := List.cons.inj texts
      rw [first.segmentsAt_append, segmentsAt_comma, segmentsAt_bare rfl (by decide), eq]
      change textOf (tokens r ++ []) :: (' ' :: textOf seg) :: segs.map textOf = _
      rw [List.append_nil, textOf_tokens, text, texts]
      rfl

/-- What a list is split into: texts that are one segment each, without blanks around them. -/
structure IsPart (s : List Char) : Prop where
  whole : Whole (tokens s)
  trimmed : Trimmed s
  written : s ≠ []

theorem IsPart.trim_ne_nil (h : IsPart s) : trim s ≠ [] := by
  rw [h.trimmed.trim_eq]
  exact h.written

theorem IsPart.listed (h : IsPart r) (rs : List (List Char)) :
    blankText (joined (r :: rs)) = false := by
  have first : blankText r = false := by
    rw [← Bool.not_eq_true, ← trim_eq_nil_iff]
    exact h.trim_ne_nil
  cases rs with
  | nil => simpa [joined] using first
  | cons next rs => rw [joined_cons, blankText, List.all_append, ← blankText, first, Bool.false_and]

/-- A joined list of parts is split into them if none of them takes the comma behind it along. -/
theorem splitChars_joined (parts : ∀ s ∈ rs, IsPart s) (fresh : ∀ s ∈ rs.dropLast, ¬Dangling s) :
    splitChars (joined rs) = .ok rs := by
  cases rs with
  | nil => rfl
  | cons r rs =>
    obtain ⟨first, others⟩ := List.forall_mem_cons.mp parts
    obtain ⟨nested, closed, texts⟩ := segmentTexts_joined (fun s hs => (parts s hs).whole) fresh
    have trimmed : (segmentTexts (joined (r :: rs))).map trim = r :: rs := by
      have indented : rs.map (trim ∘ (' ' :: ·)) = rs := by
        refine (List.map_congr_left (g := id) fun s hs => ?_).trans (List.map_id rs)
        rw [Function.comp_apply, trim, ← List.singleton_append, trimLeft_blank_append rfl, ← trim,
          (others s hs).trimmed.trim_eq, id_eq]
      rw [texts, List.map_cons, first.trimmed.trim_eq, List.map_map, indented]
    have filled : ¬(r :: rs).any List.isEmpty = true := by
      rw [List.any_eq_true]
      rintro ⟨s, hs, empty⟩
      exact (parts s hs).written (List.isEmpty_iff.mp empty)
    rw [splitChars_of_segments nested closed, trimmed, first.listed rs, if_neg filled]
    rfl

/-- A joined list is split into as many parts only if none of them takes the comma along. -/
theorem fresh_of_splitChars (parts : ∀ s ∈ rs, IsPart s) {found : List (List Char)}
    (split : splitChars (joined rs) = .ok found) (length : found.length = rs.length) :
    ∀ s ∈ rs.dropLast, ¬Dangling s := by
  cases rs with
  | nil => exact List.forall_mem_nil _
  | cons r rs =>
    obtain ⟨-, rfl⟩ := splitChars_eq_ok_iff.mp split
    rw [partsOf, (parts r List.mem_cons_self).listed rs, if_neg Bool.false_ne_true, List.length_map,
      length_segmentTexts_joined fun s hs => (parts s hs).whole, List.length_cons] at length
    have all : (r :: rs).dropLast.countP (fun s => ¬Dangling s) = (r :: rs).dropLast.length := by
      rw [List.length_dropLast, List.length_cons]
      omega
    simpa using List.countP_eq_length.mp all

theorem parseList_eq_ok_iff {text : String} : parseList (some text) = .ok ps ↔
    ∃ parts, splitChars text.toList = .ok parts ∧ ps = parts.map parseChars := by
  unfold parseList
  by_cases blank : blankText text.toList = true
  · simp [blank, splitChars_blank blank, eq_comm]
  · dsimp only
    rw [if_neg blank, split]
    cases splitChars text.toList with
    | error fault => simp [bind, Except.bind]
    | ok parts => simp [bind, Except.bind, parse, Function.comp_def, eq_comm]

/-- A parameter that is read comes from a part of the list. -/
theorem exists_part {text : String} (read : parseList (some text) = .ok ps) :
    ∀ p ∈ ps, ∃ s, IsPart s ∧ Written s p := by
  obtain ⟨parts, split, rfl⟩ := parseList_eq_ok_iff.mp read
  obtain ⟨splits, rfl⟩ := splitChars_eq_ok_iff.mp split
  refine List.forall_mem_map.mpr fun s hs => ?_
  obtain ⟨whole, trim, written⟩ := whole_of_mem_partsOf splits hs
  have trimmed : Trimmed s := trim ▸ trimmed_trim s
  exact ⟨s, ⟨whole, trimmed, written⟩, written_parseChars trimmed⟩

theorem toList_renderList (ps : List Parameter) :
    (renderList ps).toList = joined (ps.map fun p => p.render.toList) := by
  rw [renderList, Statement.toList_commas, List.map_map]
  rfl

/-- A list is read back from its rendered text exactly if no rest parameter has a mark that its name
doubles, and no parameter before the last ends in a `$` that takes the comma along. -/
theorem renderList_reads_back_iff {source : String} (read : parseList (some source) = .ok ps) :
    parseList (some (renderList ps)) = .ok ps ↔
      (∀ p ∈ ps, ¬Doubled p) ∧ ∀ p ∈ ps.dropLast, ¬Dangling p.render.toList := by
  have parts : ∀ s ∈ ps.map (fun p => p.render.toList), IsPart s := by
    refine List.forall_mem_map.mpr fun p hp => ?_
    obtain ⟨s, part, written⟩ := exists_part read p hp
    exact ⟨written.whole_render part.whole, written.trimmed_render part.trimmed,
      written.render_ne_nil part.written⟩
  have fresh_iff : (∀ s ∈ (ps.map fun p => p.render.toList).dropLast, ¬Dangling s) ↔
      ∀ p ∈ ps.dropLast, ¬Dangling p.render.toList := by
    rw [← List.map_dropLast, List.forall_mem_map]
  rw [parseList_eq_ok_iff, toList_renderList]
  constructor
  · rintro ⟨found, split, eq⟩
    have fresh := fresh_of_splitChars parts split (by rw [List.length_map, eq, List.length_map])
    refine ⟨?_, fresh_iff.mp fresh⟩
    have same := split.symm.trans (splitChars_joined parts fresh)
    obtain rfl := Except.ok.inj same
    intro p hp doubled
    have reread : ps.map (parseChars ∘ fun p => p.render.toList) = ps.map id := by
      rw [← List.map_map, ← eq, List.map_id]
    exact doubled.parse_render_ne (List.map_inj_left.mp reread p hp)
  · rintro ⟨single, fresh⟩
    refine ⟨_, splitChars_joined parts (fresh_iff.mpr fresh), ?_⟩
    rw [List.map_map, eq_comm]
    refine (List.map_congr_left (g := id) fun p hp => ?_).trans (List.map_id ps)
    obtain ⟨s, part, written⟩ := exists_part read p hp
    exact (written.render (single p hp)).parseChars_eq (written.trimmed_render part.trimmed)

example : (parseList (some "pen=$ , ink")).map renderList = .ok "pen = $, ink" ∧
    parseList (some "pen = $, ink") = .ok [⟨"pen", .optional, some "$, ink"⟩] := by decide

def inkList : String := "ink='a, b' ,  * colours,size:[1, 2] ,&"

def inkParameters : List Parameter :=
  [⟨"ink", .optional, some "'a, b'"⟩, ⟨"colours", .rest, none⟩,
    ⟨"size", .keywordOptional, some "[1, 2]"⟩, ⟨"", .block, none⟩]

theorem ink_list_reads_back : parseList (some inkList) = .ok inkParameters ∧
    renderList inkParameters = "ink = 'a, b', *colours, size: [1, 2], &" ∧
    parseList (some (renderList inkParameters)) = .ok inkParameters ∧
    (∀ p ∈ inkParameters, ¬Doubled p) ∧
      ∀ p ∈ inkParameters.dropLast, ¬Dangling p.render.toList := by
  have read : parseList (some inkList) = .ok inkParameters := by decide
  have back : parseList (some (renderList inkParameters)) = .ok inkParameters := by decide
  exact ⟨read, by decide, back, (renderList_reads_back_iff read).mp back⟩

end RubyIndex.Parameter
