import RubyIndex.Proofs.NestedBrackets
import RubyIndex.Proofs.ParameterTokens

/-! The scan of a parameter list, token by token. Where a list splits, and why it does not, can be
seen from its tokens. -/
namespace RubyIndex.Parameter

namespace Token

/-- The bracket that a token is. Those inside string literals and special globals are none. -/
def bracket? : Token → Option Char
  | plain c => if isOpener c || (openerOf? c).isSome then some c else none
  | _ => none

def depthAfter (depth : Nat) (t : Token) : Nat :=
  match t.bracket? with
  | none => depth
  | some c => if isOpener c then depth + 1 else depth - 1

end Token

def brackets (ts : List Token) : List Char := ts.filterMap Token.bracket?

def segmentsAt (depth : Nat) : List Token → List (List Token)
  | [] => [[]]
  | t :: rest =>
    if t = .plain ',' ∧ depth = 0 then [] :: segmentsAt 0 rest
    else (segmentsAt (t.depthAfter depth) rest).modifyHead (t :: ·)

variable {s rest inside after more : List Char} {c d mark : Char}

/-- A character that neither begins a token of several characters nor is a bracket or a comma. -/
def Inert (c : Char) : Prop :=
  c ∉ ['$', '\'', '"', '(', ')', '[', ']', '\x7b', '\x7d', ',']

instance (c : Char) : Decidable (Inert c) := inferInstanceAs (Decidable (¬_))

theorem Inert.lone (h : Inert c) : ¬Starts c := by
  rintro (mark | rfl)
  · simp only [isStringMark, Bool.or_eq_true, beq_iff_eq] at mark
    rcases mark with rfl | rfl
    · exact h (by decide)
    · exact h (by decide)
  · exact h (by decide)

theorem Inert.bracket?_eq_none (h : Inert c) : isOpener c = false ∧ openerOf? c = none := by
  constructor
  · rw [← Bool.not_eq_true]
    intro opener
    simp only [isOpener, Bool.or_eq_true, beq_iff_eq] at opener
    rcases opener with (rfl | rfl) | rfl
    · exact h (by decide)
    · exact h (by decide)
    · exact h (by decide)
  · unfold openerOf?
    split
    · exact absurd (by decide) h
    · exact absurd (by decide) h
    · exact absurd (by decide) h
    · rfl

theorem inert_of_not_isSpecial (h : isSpecial c = false) : Inert c := by
  intro listed
  have special :
      ['$', '\'', '"', '(', ')', '[', ']', '\x7b', '\x7d', ','].all isSpecial = true := by
    decide
  exact nomatch h.symm.trans (List.all_eq_true.mp special c listed)

/-- A literal is read up to its closing mark, and one without it is refused. -/
theorem segmentsFrom_literal (opens : isStringMark mark = true) (brackets current s : List Char) :
    segmentsFrom (.literal mark) brackets current s =
      match takeLiteral? mark s with
      | some (inside, after) =>
        segmentsFrom .plain brackets (mark :: inside.reverse ++ current) after
      | none => .error .unterminatedString := by
  have other : mark ≠ '\\' := by
    rintro rfl
    cases opens
  fun_induction takeLiteral? mark s generalizing current with
  | case1 => rfl
  | case2 c rest ih =>
    have escaped : segmentsFrom (.literal mark) brackets current ('\\' :: c :: rest) =
        segmentsFrom (.literal mark) brackets (c :: '\\' :: current) rest := rfl
    rw [escaped, ih]
    cases takeLiteral? mark rest with
    | none => rfl
    | some p => simp
  | case3 rest => simp [segmentsFrom, Mode.next, other]
  | case4 c rest lone differs ih =>
    by_cases backslash : c = '\\'
    · subst backslash
      cases rest with
      | nil => rfl
      | cons d rest => exact (lone d rest rfl rfl).elim
    · have onward : segmentsFrom (.literal mark) brackets current (c :: rest) =
          segmentsFrom (.literal mark) brackets (c :: current) rest := by
        simp [segmentsFrom, Mode.next, differs, backslash]
      rw [onward, ih]
      cases takeLiteral? mark rest with
      | none => rfl
      | some p => simp

theorem segmentsFrom_mark (opens : isStringMark mark = true) (opened current s : List Char) :
    segmentsFrom .plain opened current (mark :: s) =
      match takeLiteral? mark s with
      | some (inside, after) =>
        segmentsFrom .plain opened (mark :: inside.reverse ++ mark :: current) after
      | none => .error .unterminatedString := by
  have dollar : mark ≠ '$' := by
    rintro rfl
    cases opens
  rw [segmentsFrom, if_neg (by simp), if_neg dollar, if_pos opens, segmentsFrom_literal opens]

theorem segmentsFrom_inert (h : Inert c) (opened current rest : List Char) :
    segmentsFrom .plain opened current (c :: rest) =
      segmentsFrom .plain opened (c :: current) rest := by
  obtain ⟨opener, closer⟩ := h.bracket?_eq_none
  have dollar : c ≠ '$' := fun eq => h.lone (.inr eq)
  have mark : ¬isStringMark c = true := fun eq => h.lone (.inl eq)
  have comma : c ≠ ',' := by
    rintro rfl
    exact h (by decide)
  rw [segmentsFrom]
  simp [dollar, mark, opener, closer, comma]

variable {opened opened' current : List Char} {t : Token} {ts : List Token}

def reported (opened current : List Char) (ts : List Token) :
    Except SplitFault (List (List Char)) :=
  match closeAll opened (brackets ts) with
  | .error closer => .error (.unexpected closer)
  | .ok left =>
    if ts.any Token.isUnclosed then .error .unterminatedString
    else
      match left with
      | opener :: _ => .error (.unclosed opener)
      | [] => .ok (((segmentsAt opened.length ts).map textOf).modifyHead (current.reverse ++ ·))

theorem brackets_cons (t : Token) (ts : List Token) :
    brackets (t :: ts) = t.bracket?.toList ++ brackets ts := by
  unfold brackets
  cases h : t.bracket? with
  | none => rw [List.filterMap_cons_none h]; rfl
  | some c => rw [List.filterMap_cons_some h]; rfl

theorem openerOf?_of_isOpener (h : isOpener c = true) : openerOf? c = none := by
  simp only [isOpener, Bool.or_eq_true, beq_iff_eq] at h
  rcases h with (rfl | rfl) | rfl <;> rfl

/-- A bracket either opens or closes. -/
theorem Token.bracket?_cases (t : Token) : t.bracket? = none ∨
    ∃ c, t.bracket? = some c ∧ (isOpener c = true ∧ openerOf? c = none ∨
      isOpener c = false ∧ ∃ opener, openerOf? c = some opener) := by
  cases t with
  | plain c =>
    by_cases opener : isOpener c = true
    · exact .inr ⟨c, by simp [bracket?, opener], .inl ⟨opener, openerOf?_of_isOpener opener⟩⟩
    · cases closer : openerOf? c with
      | none => exact .inl (by simp [bracket?, opener, closer])
      | some o =>
        exact .inr ⟨c, by simp [bracket?, closer], .inr ⟨by simpa using opener, o, closer⟩⟩
  | _ => exact .inl rfl

/-- The depth counts the brackets that are open. -/
theorem depthAfter_of_closeAll (closes : closeAll opened t.bracket?.toList = .ok opened') :
    t.depthAfter opened.length = opened'.length := by
  unfold Token.depthAfter
  rcases t.bracket?_cases with none | ⟨c, some, ⟨opener, bare⟩ | ⟨other, o, closer⟩⟩
  · rw [none] at closes ⊢
    cases closes
    rfl
  · rw [some, Option.toList_some, closeAll_opener bare] at closes
    cases closes
    simp [some, opener]
  · rw [some, Option.toList_some, closeAll_closer closer] at closes
    split at closes
    · cases closes
      simp [some, other]
    · cases closes

/-- A token that neither splits the list nor is refused joins the current segment. -/
theorem reported_cons (closed : t.isUnclosed = false) (joins : ¬(t = .plain ',' ∧ opened = []))
    (closes : closeAll opened t.bracket?.toList = .ok opened') :
    reported opened current (t :: ts) = reported opened' (t.text.reverse ++ current) ts := by
  have depth := depthAfter_of_closeAll closes
  have within : ¬(t = .plain ',' ∧ opened.length = 0) := by rwa [List.length_eq_zero_iff]
  have behind : closeAll opened (brackets (t :: ts)) = closeAll opened' (brackets ts) := by
    rw [brackets_cons, closeAll_append, closes]
    rfl
  have joined :
      ((segmentsAt opened.length (t :: ts)).map textOf).modifyHead (current.reverse ++ ·) =
      ((segmentsAt opened'.length ts).map textOf).modifyHead
        ((t.text.reverse ++ current).reverse ++ ·) := by
    rw [segmentsAt, if_neg within, depth]
    cases segmentsAt opened'.length ts <;> simp [textOf]
  rw [reported, reported, behind, joined, List.any_cons, closed, Bool.false_or]

theorem modifyHead_self (parts : List (List Char)) : parts.modifyHead (fun s => s) = parts := by
  cases parts <;> rfl

/-- A comma outside all brackets ends the current segment. -/
theorem reported_comma (current : List Char) (ts : List Token) :
    reported [] current (.plain ',' :: ts) = (reported [] [] ts).map (current.reverse :: ·) := by
  have bare : brackets (.plain ',' :: ts) = brackets ts := rfl
  rw [reported, reported, bare]
  cases closeAll [] (brackets ts) with
  | error closer => rfl
  | ok left =>
    dsimp only
    rw [List.any_cons, show Token.isUnclosed (.plain ',') = false from rfl, Bool.false_or]
    split
    · rfl
    · cases left with
      | cons opener left => rfl
      | nil =>
        rw [segmentsAt, if_pos ⟨rfl, rfl⟩]
        simp [modifyHead_self, textOf, Except.map]

theorem bracket?_plain_eq_none (other : isOpener c = false) (closer : openerOf? c = none) :
    Token.bracket? (.plain c) = none := by
  simp [Token.bracket?, other, closer]

/-- A character that is a token of its own does in the scan what its token does. -/
theorem reported_plain (opened current : List Char) (lone : ¬Starts c) {rest : List Char}
    (onward : ∀ opened current,
      segmentsFrom .plain opened current rest = reported opened current (tokens rest)) :
    segmentsFrom .plain opened current (c :: rest) =
      reported opened current (.plain c :: tokens rest) := by
  have mark : isStringMark c = false := by simpa using fun h => lone (.inl h)
  have dollar : c ≠ '$' := fun h => lone (.inr h)
  have joins {opened' : List Char} (inside : ¬(c = ',' ∧ opened = []))
      (closes : closeAll opened (Token.bracket? (.plain c)).toList = .ok opened') :
      segmentsFrom .plain opened' (c :: current) rest =
        reported opened current (.plain c :: tokens rest) := by
    rw [onward]
    refine (reported_cons (t := .plain c) rfl ?_ closes).symm
    rintro ⟨comma, outside⟩
    exact inside ⟨Token.plain.inj comma, outside⟩
  rw [segmentsFrom, if_neg (by simp), if_neg dollar, if_neg (by simp [mark])]
  by_cases opener : isOpener c = true
  · have closer := openerOf?_of_isOpener opener
    rw [if_pos opener]
    refine joins ?_ ?_
    · rintro ⟨rfl, -⟩
      cases opener
    · simp [Token.bracket?, opener, closeAll, closer]
  · rw [if_neg opener]
    cases closer : openerOf? c with
    | some opener' =>
      dsimp only
      split
      · next innermost =>
        refine joins ?_ ?_
        · rintro ⟨rfl, -⟩
          cases closer
        · simp [Token.bracket?, closer, closeAll_closer closer, innermost, closeAll]
      · next other =>
        have stopped : closeAll opened (brackets (.plain c :: tokens rest)) = .error c := by
          rw [brackets_cons]
          simp [Token.bracket?, closer, closeAll_closer closer, other]
        rw [reported, stopped]
    | none =>
      dsimp only
      split
      · next comma =>
        obtain ⟨rfl, rfl⟩ : c = ',' ∧ opened = [] := by simpa using comma
        rw [onward, reported_comma]
      · next inside =>
        refine joins (by simpa using inside) ?_
        rw [bracket?_plain_eq_none (Bool.not_eq_true _ ▸ opener) closer]
        rfl

/-- What the scan of a list does can be seen from its tokens. -/
theorem segmentsFrom_eq_reported (s opened current : List Char) :
    segmentsFrom .plain opened current s = reported opened current (tokens s) := by
  fun_induction tokens s generalizing opened current with
  | case1 => cases opened <;> simp [segmentsFrom, reported, closeAll, brackets, segmentsAt, textOf]
  | case2 c rest opens inside after found ih =>
    rw [segmentsFrom_mark opens, found]
    dsimp only
    have joined : reported opened current (.literal c inside :: tokens after) =
        reported opened ((Token.literal c inside).text.reverse ++ current) (tokens after) :=
      reported_cons rfl (by simp) rfl
    rw [ih, joined]
    simp [Token.text]
  | case3 c rest opens found =>
    rw [segmentsFrom_mark opens, found]
    rfl
  | case4 d more special _ ih =>
    have taken : segmentsFrom .plain opened current ('$' :: d :: more) =
        segmentsFrom .plain opened (d :: '$' :: current) more := rfl
    rw [taken, ih]
    exact (reported_cons (t := .special d) rfl (by simp) rfl).symm
  | case5 d more ordinary _ ih =>
    have taken : segmentsFrom .plain opened current ('$' :: d :: more) =
        segmentsFrom .plain opened (d :: '$' :: current) more := rfl
    have joined : reported opened current (.plain '$' :: tokens (d :: more)) =
        reported opened ('$' :: current) (tokens (d :: more)) := reported_cons rfl (by simp) rfl
    rw [joined, ← ih, taken]
    exact (segmentsFrom_inert (inert_of_not_isSpecial (by simpa using ordinary)) _ _ _).symm
  | case6 =>
    cases opened <;>
      simp [segmentsFrom, reported, closeAll, brackets, segmentsAt, textOf, Token.bracket?,
        isOpener, openerOf?, Token.isUnclosed, Token.text]
  | case7 c rest mark dollar ih =>
    exact reported_plain opened current (fun h => h.elim mark dollar) ih

/-- A list splits exactly if its brackets are well nested and its string literals are closed. -/
theorem segments_eq_ok_iff {s : List Char} {parts : List (List Char)} :
    segments s = .ok parts ↔ Nested (brackets (tokens s)) ∧ Closed (tokens s) ∧
      parts = (segmentsAt 0 (tokens s)).map textOf := by
  have closed : (tokens s).any Token.isUnclosed = false ↔ Closed (tokens s) := by
    rw [← Bool.not_eq_true, ← not_closed_iff, not_not]
  rw [segments, segmentsFrom_eq_reported, reported, ← closeAll_eq_nil_iff, ← closed]
  cases closeAll [] (brackets (tokens s)) with
  | error closer => simp
  | ok left =>
    dsimp only
    cases (tokens s).any Token.isUnclosed with
    | true => simp
    | false =>
      cases left with
      | cons opener left => simp
      | nil => simpa [modifyHead_self] using eq_comm

theorem segmentsAt_comma (ts : List Token) :
    segmentsAt 0 (.plain ',' :: ts) = [] :: segmentsAt 0 ts := by
  rw [segmentsAt, if_pos ⟨rfl, rfl⟩]

theorem segmentsAt_cons {depth : Nat} (joins : ¬(t = .plain ',' ∧ depth = 0)) :
    segmentsAt depth (t :: ts) = (segmentsAt (t.depthAfter depth) ts).modifyHead (t :: ·) := by
  rw [segmentsAt, if_neg joins]

theorem exists_segmentsAt (depth : Nat) (ts : List Token) :
    ∃ seg segs, segmentsAt depth ts = seg :: segs := by
  induction ts generalizing depth with
  | nil => exact ⟨[], [], rfl⟩
  | cons t ts ih =>
    by_cases splits : t = .plain ',' ∧ depth = 0
    · obtain ⟨rfl, rfl⟩ := splits
      exact ⟨_, _, segmentsAt_comma ts⟩
    · obtain ⟨seg, segs, eq⟩ := ih (t.depthAfter depth)
      exact ⟨t :: seg, segs, by rw [segmentsAt_cons splits, eq]; rfl⟩

/-- The segments with a comma between each two of them are the whole list. -/
theorem intercalate_segmentsAt (depth : Nat) (ts : List Token) :
    [.plain ','].intercalate (segmentsAt depth ts) = ts := by
  induction ts generalizing depth with
  | nil => rfl
  | cons t ts ih =>
    by_cases splits : t = .plain ',' ∧ depth = 0
    · obtain ⟨rfl, rfl⟩ := splits
      obtain ⟨seg, segs, eq⟩ := exists_segmentsAt 0 ts
      have rest := ih 0
      rw [eq] at rest
      rw [segmentsAt_comma, eq, List.intercalate_cons_cons, rest]
      rfl
    · obtain ⟨seg, segs, eq⟩ := exists_segmentsAt (t.depthAfter depth) ts
      have rest := ih (t.depthAfter depth)
      rw [eq] at rest
      rw [segmentsAt_cons splits, eq]
      cases segs with
      | nil => simpa using rest
      | cons next segs =>
        rw [List.intercalate_cons_cons] at rest
        simpa [List.intercalate_cons_cons] using rest

theorem textOf_intercalate (segs : List (List Token)) :
    textOf ([.plain ','].intercalate segs) = [','].intercalate (segs.map textOf) := by
  induction segs with
  | nil => rfl
  | cons seg segs ih =>
    cases segs with
    | nil => simp
    | cons next segs =>
      rw [List.map_cons, List.map_cons, List.intercalate_cons_cons, List.intercalate_cons_cons,
        ← List.map_cons, ← ih, textOf_append, textOf_append]
      rfl

/-- A list that is one segment: its brackets are well nested and it has no comma outside them. -/
structure Whole (ts : List Token) : Prop where
  nested : Nested (brackets ts)
  closed : Closed ts
  single : segmentsAt 0 ts = [ts]

theorem exists_closeAll_cons (closes : closeAll opened (brackets (t :: ts)) = .ok left) :
    ∃ opened', closeAll opened t.bracket?.toList = .ok opened' ∧
      closeAll opened' (brackets ts) = .ok left := by
  rw [brackets_cons, closeAll_append] at closes
  cases first : closeAll opened t.bracket?.toList with
  | error closer =>
    rw [first] at closes
    cases closes
  | ok opened' =>
    rw [first] at closes
    exact ⟨opened', rfl, closes⟩

/-- What a list closes and leaves open, its first segment does, and the others are lists like it. -/
theorem segmentsAt_closeAll (closes : closeAll opened (brackets ts) = .ok []) (closed : Closed ts) :
    ∃ seg segs, segmentsAt opened.length ts = seg :: segs ∧
      closeAll opened (brackets seg) = .ok [] ∧ Closed seg ∧
      segmentsAt opened.length seg = [seg] ∧ ∀ s ∈ segs, Whole s := by
  induction ts generalizing opened with
  | nil => exact ⟨[], [], rfl, closes, closed, rfl, List.forall_mem_nil _⟩
  | cons t ts ih =>
    obtain ⟨here, later⟩ := List.forall_mem_cons.mp closed
    by_cases splits : t = .plain ',' ∧ opened.length = 0
    · obtain ⟨rfl, none⟩ := splits
      obtain rfl := List.length_eq_zero_iff.mp none
      obtain ⟨seg, segs, eq, nested, closed, single, whole⟩ := ih closes later
      refine ⟨[], seg :: segs, ?_, rfl, List.forall_mem_nil _, rfl, ?_⟩
      · rw [List.length_nil, segmentsAt_comma]
        exact congrArg _ eq
      · exact List.forall_mem_cons.mpr ⟨⟨closeAll_eq_nil_iff.mp nested, closed, single⟩, whole⟩
    · obtain ⟨opened', first, rest⟩ := exists_closeAll_cons closes
      have depth := depthAfter_of_closeAll first
      obtain ⟨seg, segs, eq, nested, closed, single, whole⟩ := ih rest later
      refine ⟨t :: seg, segs, ?_, ?_, List.forall_mem_cons.mpr ⟨here, closed⟩, ?_, whole⟩
      · rw [segmentsAt_cons splits, depth, eq]
        rfl
      · rw [brackets_cons, closeAll_append, first]
        exact nested
      · rw [segmentsAt_cons splits, depth, single]
        rfl

theorem whole_of_mem_segmentsAt (nested : Nested (brackets ts)) (closed : Closed ts) :
    ∀ seg ∈ segmentsAt 0 ts, Whole seg := by
  obtain ⟨seg, segs, eq, closes, closed, single, whole⟩ :=
    segmentsAt_closeAll (closeAll_eq_nil_iff.mpr nested) closed
  rw [List.length_nil] at eq
  rw [eq]
  exact List.forall_mem_cons.mpr ⟨⟨closeAll_eq_nil_iff.mp closes, closed, single⟩, whole⟩

theorem infix_intercalate {α : Type} (sep : List α) {part : List α} {parts : List (List α)}
    (h : part ∈ parts) : part <:+: sep.intercalate parts := by
  induction parts with
  | nil => cases h
  | cons first parts ih =>
    cases parts with
    | nil =>
      obtain rfl := List.mem_singleton.mp h
      have alone : sep.intercalate [part] = part := List.intercalate_singleton
      exact alone.symm ▸ List.infix_rfl
    | cons second parts =>
      rw [List.intercalate_cons_cons]
      rcases List.mem_cons.mp h with rfl | later
      · rw [List.append_assoc]
        exact (List.prefix_append _ _).isInfix
      · exact (ih later).trans (List.suffix_append _ _).isInfix

/-- The text of a segment has the tokens of the segment. -/
theorem tokens_of_mem_segmentsAt {s : List Char} {seg : List Token}
    (h : seg ∈ segmentsAt 0 (tokens s)) : tokens (textOf seg) = seg := by
  obtain ⟨before, after, eq⟩ := infix_intercalate [.plain ','] h
  rw [intercalate_segmentsAt] at eq
  have upto := (tokens_cut eq.symm).1
  exact (tokens_cut upto).2

/-- A text that is one segment splits into itself alone. -/
theorem segments_of_whole {s : List Char} (whole : Whole (tokens s)) : segments s = .ok [s] :=
  segments_eq_ok_iff.mpr ⟨whole.nested, whole.closed, by simp [whole.single, textOf_tokens]⟩

end RubyIndex.Parameter
