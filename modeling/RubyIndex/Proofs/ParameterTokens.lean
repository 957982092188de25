import Mathlib.Data.List.Basic
import RubyIndex.Parameter.Split
import RubyIndex.Text.Word

/-! The tokens of a parameter list: string literals, special globals such as `$,`, and all other
characters one by one. Tokens stay what they are if the text is cut between them, or if more follows
that does not join the last of them. -/
namespace RubyIndex.Parameter

/-- The text of a literal that is not closed reaches to the end of the list. -/
inductive Token where
  | literal (mark : Char) (inside : List Char)
  | unclosed (mark : Char) (inside : List Char)
  | special (c : Char)
  | plain (c : Char)
  deriving DecidableEq, Repr

namespace Token

def text : Token → List Char
  | literal mark inside => mark :: inside ++ [mark]
  | unclosed mark inside => mark :: inside
  | special c => ['$', c]
  | plain c => [c]

def isUnclosed : Token → Bool
  | unclosed .. => true
  | _ => false

end Token

/-- Splits off the inside of a string literal that ends at a mark, and what follows the mark. A
backslash takes the character after it along. -/
def takeLiteral? (mark : Char) : List Char → Option (List Char × List Char)
  | [] => none
  | '\\' :: c :: rest => (takeLiteral? mark rest).map fun p => ('\\' :: c :: p.1, p.2)
  | c :: rest =>
    if c = mark then some ([], rest) else (takeLiteral? mark rest).map fun p => (c :: p.1, p.2)

theorem eq_of_takeLiteral? {mark : Char} {s inside after : List Char}
    (h : takeLiteral? mark s = some (inside, after)) : s = inside ++ mark :: after := by
  fun_induction takeLiteral? mark s generalizing inside with
  | case1 => cases h
  | case2 c rest ih =>
    obtain ⟨p, found, same⟩ := Option.map_eq_some_iff.mp h
    cases same
    rw [ih found]
    rfl
  | case3 rest =>
    cases h
    rfl
  | case4 c rest _ other ih =>
    obtain ⟨p, found, same⟩ := Option.map_eq_some_iff.mp h
    cases same
    rw [ih found]
    rfl

/-- Whether a character after a `$` makes a special global with it. -/
def isSpecial (c : Char) : Bool := !Text.isWord c && !Text.isBlank c

def tokens : List Char → List Token
  | [] => []
  | c :: rest =>
    if isStringMark c then
      match _found : takeLiteral? c rest with
      | some (inside, after) => .literal c inside :: tokens after
      | none => [.unclosed c rest]
    else if c = '$' then
      match rest with
      | d :: more =>
        if isSpecial d then .special d :: tokens more else .plain '$' :: tokens (d :: more)
      | [] => [.plain '$']
    else .plain c :: tokens rest
termination_by s => s.length
decreasing_by
  · have := congrArg List.length (eq_of_takeLiteral? _found)
    simp only [List.length_append, List.length_cons] at this ⊢
    omega
  all_goals
    simp only [List.length_cons]
    omega

def textOf (ts : List Token) : List Char := ts.flatMap Token.text

variable {s rest inside after more : List Char} {c d mark : Char}

theorem tokens_nil : tokens [] = [] := by
  rw [tokens.eq_def]

theorem tokens_literal (opens : isStringMark mark = true)
    (found : takeLiteral? mark rest = some (inside, after)) :
    tokens (mark :: rest) = .literal mark inside :: tokens after := by
  rw [tokens.eq_def]
  dsimp only
  rw [if_pos opens]
  split
  · next eq =>
    rw [found] at eq
    cases eq
    rfl
  · next eq => exact nomatch found.symm.trans eq

theorem tokens_unclosed (opens : isStringMark mark = true) (found : takeLiteral? mark rest = none) :
    tokens (mark :: rest) = [.unclosed mark rest] := by
  rw [tokens.eq_def]
  dsimp only
  rw [if_pos opens]
  split
  · next eq => exact nomatch found.symm.trans eq
  · rfl

theorem tokens_special (special : isSpecial d = true) :
    tokens ('$' :: d :: more) = .special d :: tokens more := by
  rw [tokens.eq_def]
  dsimp only
  rw [if_neg (by decide), if_pos rfl]
  simp only [special, if_true]

theorem tokens_dollar (ordinary : ∀ d ∈ rest.head?, isSpecial d = false) :
    tokens ('$' :: rest) = .plain '$' :: tokens rest := by
  rw [tokens.eq_def]
  dsimp only
  rw [if_neg (by decide), if_pos rfl]
  cases rest with
  | nil => rw [tokens.eq_def]
  | cons d more => simp [ordinary d rfl]

def Starts (c : Char) : Prop := isStringMark c = true ∨ c = '$'

theorem tokens_plain (lone : ¬Starts c) : tokens (c :: rest) = .plain c :: tokens rest := by
  rw [tokens.eq_def]
  dsimp only
  rw [if_neg fun mark => lone (.inl mark), if_neg fun dollar => lone (.inr dollar)]

theorem textOf_tokens (s : List Char) : textOf (tokens s) = s := by
  fun_induction tokens s with
  | case1 => rfl
  | case2 c rest opens inside after found ih =>
    rw [eq_of_takeLiteral? found]
    change c :: inside ++ [c] ++ textOf (tokens after) = _
    simp [ih]
  | case3 c rest opens found => simp [textOf, Token.text]
  | case4 d more special _ ih => exact congrArg (fun s => '$' :: d :: s) ih
  | case5 d more ordinary _ ih => exact congrArg ('$' :: ·) ih
  | case6 => rfl
  | case7 c rest _ _ ih => exact congrArg (c :: ·) ih

def Closed (ts : List Token) : Prop := ∀ t ∈ ts, t.isUnclosed = false

theorem not_closed_iff {ts : List Token} : ¬Closed ts ↔ ts.any Token.isUnclosed = true := by
  simp [Closed]

theorem closed_append {first second : List Token} :
    Closed (first ++ second) ↔ Closed first ∧ Closed second := List.forall_mem_append

theorem textOf_append (first second : List Token) :
    textOf (first ++ second) = textOf first ++ textOf second := List.flatMap_append

theorem textOf_eq_of_tokens {ts : List Token} (h : tokens s = ts) : textOf ts = s :=
  h ▸ textOf_tokens s

theorem ne_backslash_of_isStringMark (opens : isStringMark mark = true) : mark ≠ '\\' := by
  rintro rfl
  cases opens

theorem takeLiteral?_cons (plain : c ≠ '\\') (mark : Char) (rest : List Char) :
    takeLiteral? mark (c :: rest) =
      if c = mark then some ([], rest)
      else (takeLiteral? mark rest).map fun p => (c :: p.1, p.2) := by
  rw [takeLiteral?]
  rintro d more rfl
  exact absurd rfl plain

/-- What follows the closing mark of a literal does not change the literal. -/
theorem takeLiteral?_of_takeLiteral? (opens : isStringMark mark = true)
    (found : takeLiteral? mark s = some (inside, after)) (rest : List Char) :
    takeLiteral? mark (inside ++ mark :: rest) = some (inside, rest) := by
  fun_induction takeLiteral? mark s generalizing inside with
  | case1 => cases found
  | case2 c more ih =>
    obtain ⟨p, inner, same⟩ := Option.map_eq_some_iff.mp found
    cases same
    rw [List.cons_append, List.cons_append, takeLiteral?, ih inner]
    rfl
  | case3 more =>
    cases found
    rw [List.nil_append, takeLiteral?_cons (ne_backslash_of_isStringMark opens), if_pos rfl]
  | case4 c more lone other ih =>
    obtain ⟨p, inner, same⟩ := Option.map_eq_some_iff.mp found
    cases same
    have plain : c ≠ '\\' := by
      rintro rfl
      cases more with
      | nil => cases inner
      | cons d more => exact lone d more rfl rfl
    rw [List.cons_append, takeLiteral?_cons plain, if_neg other, ih inner]
    rfl

/-- The tokens of two texts together, unless the first text has an open literal or ends in a `$`
that takes the next character along. -/
theorem tokens_append {x y : List Char} (closed : Closed (tokens x))
    (apart : (tokens x).getLast? = some (.plain '$') → ∀ c ∈ y.head?, isSpecial c = false) :
    tokens (x ++ y) = tokens x ++ tokens y := by
  have later {t : Token} {ts : List Token} (apart : (t :: ts).getLast? = some (.plain '$') →
      ∀ c ∈ y.head?, isSpecial c = false) : ts.getLast? = some (.plain '$') →
      ∀ c ∈ y.head?, isSpecial c = false := by
    intro last
    exact apart (by rw [List.getLast?_cons, last]; rfl)
  fun_induction tokens x with
  | case1 => rfl
  | case2 c rest opens inside after found ih =>
    have joined : takeLiteral? c (rest ++ y) = some (inside, after ++ y) := by
      rw [eq_of_takeLiteral? found, List.append_assoc]
      exact takeLiteral?_of_takeLiteral? opens found (after ++ y)
    rw [List.cons_append, tokens_literal opens joined,
      ih (List.forall_mem_cons.mp closed).2 (later apart)]
    rfl
  | case3 c rest opens found => cases (List.forall_mem_cons.mp closed).1
  | case4 d more special _ ih =>
    rw [List.cons_append, List.cons_append, tokens_special special,
      ih (List.forall_mem_cons.mp closed).2 (later apart)]
    rfl
  | case5 d more ordinary _ ih =>
    rw [List.cons_append, tokens_dollar (by simpa using ordinary),
      ih (List.forall_mem_cons.mp closed).2 (later apart)]
    rfl
  | case6 =>
    rw [List.singleton_append, tokens_dollar (apart rfl)]
    rfl
  | case7 c rest mark dollar ih =>
    rw [List.cons_append, tokens_plain (fun starts => starts.elim mark dollar),
      ih (List.forall_mem_cons.mp closed).2 (later apart)]
    rfl

theorem tokens_lone_dollar : tokens ['$'] = [.plain '$'] := by
  rw [tokens_dollar (by simp), tokens_nil]

/-- The first token of a text is the same if the rest of the text is shortened. -/
theorem tokens_first {t : Token} {ts : List Token} (h : tokens s = t :: ts) :
    tokens (textOf ts) = ts ∧
      ∀ more, more <+: textOf ts → tokens (t.text ++ more) = t :: tokens more := by
  have whole {s : List Char} {ts : List Token} (h : tokens s = ts) : tokens (textOf ts) = ts := by
    rw [textOf_eq_of_tokens h, h]
  fun_cases tokens s with
  | case1 => cases tokens_nil.symm.trans h
  | case2 c rest opens inside after found =>
    cases (tokens_literal opens found).symm.trans h
    refine ⟨whole rfl, fun more _ => ?_⟩
    have text : (Token.literal c inside).text ++ more = c :: (inside ++ c :: more) := by
      simp [Token.text]
    rw [text, tokens_literal opens (takeLiteral?_of_takeLiteral? opens found more)]
  | case3 c rest opens found =>
    cases (tokens_unclosed opens found).symm.trans h
    refine ⟨tokens_nil, fun more within => ?_⟩
    obtain rfl := List.prefix_nil.mp within
    rw [List.append_nil, tokens_nil]
    exact tokens_unclosed opens found
  | case4 d more special =>
    cases (tokens_special special).symm.trans h
    exact ⟨whole rfl, fun _ _ => tokens_special special⟩
  | case5 d more ordinary =>
    cases (tokens_dollar (by simpa using ordinary)).symm.trans h
    refine ⟨whole rfl, fun shorter within => tokens_dollar fun c first => ?_⟩
    rw [textOf_tokens] at within
    obtain ⟨left, eq⟩ := within
    have same : (d :: more).head? = some c := by
      rw [← eq, List.head?_append, show shorter.head? = some c from first, Option.some_or]
    cases same
    simpa using ordinary
  | case6 =>
    cases tokens_lone_dollar.symm.trans h
    refine ⟨tokens_nil, fun more within => ?_⟩
    obtain rfl := List.prefix_nil.mp within
    rw [tokens_nil]
    exact tokens_lone_dollar
  | case7 c rest mark dollar =>
    have lone : ¬Starts c := fun starts => starts.elim mark dollar
    cases (tokens_plain lone).symm.trans h
    exact ⟨whole rfl, fun _ _ => tokens_plain lone⟩

/-- A text may be cut between two of its tokens. -/
theorem tokens_cut {first second : List Token} (h : tokens s = first ++ second) :
    tokens (textOf first) = first ∧ tokens (textOf second) = second := by
  induction first generalizing s with
  | nil =>
    rw [List.nil_append] at h
    exact ⟨tokens_nil, by rw [textOf_eq_of_tokens h, h]⟩
  | cons t first ih =>
    obtain ⟨rest, joins⟩ := tokens_first h
    obtain ⟨before, behind⟩ := ih rest
    refine ⟨?_, behind⟩
    have text : textOf (t :: first) = t.text ++ textOf first := List.flatMap_cons
    rw [text, joins, before]
    rw [List.append_eq, textOf_append]
    exact List.prefix_append _ _

theorem takeLiteral?_append_eq_none (missing : takeLiteral? mark s = none) (other : c ≠ mark)
    (plain : c ≠ '\\') : takeLiteral? mark (s ++ [c]) = none := by
  fun_induction takeLiteral? mark s with
  | case1 => rw [List.nil_append, takeLiteral?_cons plain, if_neg other]; rfl
  | case2 d more ih =>
    rw [List.cons_append, List.cons_append, takeLiteral?,
      ih (Option.map_eq_none_iff.mp missing)]
    rfl
  | case3 => cases missing
  | case4 d more lone differs ih =>
    have inner := ih (Option.map_eq_none_iff.mp missing)
    by_cases backslash : d = '\\'
    · subst backslash
      cases more with
      | nil => rfl
      | cons e more => exact (lone e more rfl rfl).elim
    · rw [List.cons_append, takeLiteral?_cons backslash, if_neg differs, inner]
      rfl

/-- A blank closes no literal. -/
theorem closed_of_append_blank {x : List Char} {b : Char} (blank : Text.isBlank b = true)
    (closed : Closed (tokens (x ++ [b]))) : Closed (tokens x) := by
  fun_induction tokens x with
  | case1 => exact List.forall_mem_nil _
  | case2 c rest opens inside after found ih =>
    have joined : takeLiteral? c (rest ++ [b]) = some (inside, after ++ [b]) := by
      rw [eq_of_takeLiteral? found, List.append_assoc]
      exact takeLiteral?_of_takeLiteral? opens found (after ++ [b])
    rw [List.cons_append, tokens_literal opens joined] at closed
    exact List.forall_mem_cons.mpr ⟨rfl, ih (List.forall_mem_cons.mp closed).2⟩
  | case3 c rest opens found =>
    have other : b ≠ c ∧ b ≠ '\\' := by
      constructor
      · rintro rfl
        simp only [isStringMark, Bool.or_eq_true, beq_iff_eq] at opens
        rcases opens with rfl | rfl <;> cases blank
      · rintro rfl
        cases blank
    have missing := takeLiteral?_append_eq_none found other.1 other.2
    rw [List.cons_append, tokens_unclosed opens missing] at closed
    cases (List.forall_mem_cons.mp closed).1
  | case4 d more special _ ih =>
    rw [List.cons_append, List.cons_append, tokens_special special] at closed
    exact List.forall_mem_cons.mpr ⟨rfl, ih (List.forall_mem_cons.mp closed).2⟩
  | case5 d more ordinary _ ih =>
    rw [List.cons_append, tokens_dollar (by simpa using ordinary)] at closed
    exact List.forall_mem_cons.mpr ⟨rfl, ih (List.forall_mem_cons.mp closed).2⟩
  | case6 => exact List.forall_mem_singleton.mpr rfl
  | case7 c rest mark dollar ih =>
    rw [List.cons_append, tokens_plain fun starts => starts.elim mark dollar] at closed
    exact List.forall_mem_cons.mpr ⟨rfl, ih (List.forall_mem_cons.mp closed).2⟩

theorem isSpecial_of_isBlank {b : Char} (blank : Text.isBlank b = true) : isSpecial b = false := by
  simp [isSpecial, blank]

end RubyIndex.Parameter
