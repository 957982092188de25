import RubyIndex.Proofs.Identifiers
import RubyIndex.Proofs.SplitParameters

/-! The ways in which a parameter is written. Its mark, name and default may have blanks between
them, and rendering it writes the same parts with the blanks that are usual. -/
namespace RubyIndex.Parameter

open Text

structure IsDefault (value : List Char) : Prop where
  written : value ≠ []
  trimmed : Trimmed value
  oneLine : '\n' ∉ value

/-- The texts of a parameter. What has none of the other forms is a required parameter. -/
inductive Written : List Char → Parameter → Prop
  | forward : Written ['.', '.', '.'] ⟨"", .forward, none⟩
  | block {gap name : List Char} (blank : blankText gap = true) (trimmed : Trimmed name) :
      Written ('&' :: (gap ++ name)) ⟨String.ofList name, .block, none⟩
  | keywordRest {gap name : List Char} (blank : blankText gap = true) (trimmed : Trimmed name) :
      Written ('*' :: '*' :: (gap ++ name)) ⟨String.ofList name, .keywordRest, none⟩
  | rest {gap name : List Char} (blank : blankText gap = true) (trimmed : Trimmed name)
      (single : (gap ++ name).head? ≠ some '*') :
      Written ('*' :: (gap ++ name)) ⟨String.ofList name, .rest, none⟩
  | keywordRequired {name : List Char} (identifier : Identifier name) :
      Written (name ++ [':']) ⟨String.ofList name, .keywordRequired, none⟩
  | keywordOptional {name gap value : List Char} (identifier : Identifier name)
      (blank : blankText gap = true) (default : IsDefault value) :
      Written (name ++ ':' :: (gap ++ value))
        ⟨String.ofList name, .keywordOptional, some (String.ofList value)⟩
  | optional {name before after value : List Char} (identifier : Identifier name)
      (before_blank : blankText before = true) (after_blank : blankText after = true)
      (default : IsDefault value) :
      Written (name ++ (before ++ '=' :: (after ++ value)))
        ⟨String.ofList name, .optional, some (String.ofList value)⟩
  | required {s : List Char} (other : s ≠ ['.', '.', '.'])
      (unmarked : ∀ c ∈ s.head?, c ≠ '&' ∧ c ≠ '*') (keyword : keyword? s = none)
      (optional : optional? s = none) : Written s ⟨String.ofList s, .required, none⟩

variable {s gap name value rest : List Char} {p : Parameter} {c : Char}

theorem defaultOf?_blank_append (blank : blankText gap = true) (default : IsDefault value) :
    defaultOf? (gap ++ value) = some value := by
  have left : trimLeft (gap ++ value) = value := by
    rw [trimLeft_blank_append blank, trimLeft_eq_self default.trimmed.first]
  simp [defaultOf?, left, default.written, default.oneLine, default.trimmed.trim_eq]

theorem default_of_defaultOf? (last : ∀ c ∈ s.getLast?, isBlank c = false)
    (h : defaultOf? s = some value) :
    IsDefault value ∧ ∃ gap, blankText gap = true ∧ s = gap ++ value := by
  have suffix : trimLeft s <:+ s := List.dropWhile_suffix _
  have trimmed : Trimmed (trimLeft s) := ⟨head?_trimLeft s, getLast?_of_suffix suffix last⟩
  simp only [defaultOf?, trimmed.trim_eq, Option.ite_none_left_eq_some, Option.some.injEq] at h
  obtain ⟨kept, rfl⟩ := h
  refine ⟨⟨?_, trimmed, ?_⟩, exists_trimLeft s⟩
  · simp_all
  · simp_all

theorem written_of_keyword? (last : ∀ c ∈ s.getLast?, isBlank c = false)
    (h : keyword? s = some p) : Written s p := by
  unfold keyword? at h
  split at h
  · next name rest taken =>
    obtain ⟨identifier, rfl, -⟩ := takeIdentifier?_eq_some_iff.mp taken
    split at h
    · next none =>
      cases h
      rw [List.isEmpty_iff.mp none]
      exact .keywordRequired identifier
    · obtain ⟨value, read, rfl⟩ := Option.map_eq_some_iff.mp h
      have behind : rest <:+ name ++ ':' :: rest :=
        (List.suffix_cons _ _).trans (List.suffix_append _ _)
      obtain ⟨default, gap, blank, rfl⟩ :=
        default_of_defaultOf? (getLast?_of_suffix behind last) read
      exact .keywordOptional identifier blank default
  · cases h

theorem written_of_optional? (last : ∀ c ∈ s.getLast?, isBlank c = false)
    (h : optional? s = some p) : Written s p := by
  unfold optional? at h
  split at h
  · next name rest taken =>
    obtain ⟨identifier, rfl, -⟩ := takeIdentifier?_eq_some_iff.mp taken
    obtain ⟨before, before_blank, cut⟩ := exists_trimLeft rest
    split at h
    · next more sign =>
      obtain ⟨value, read, rfl⟩ := Option.map_eq_some_iff.mp h
      rw [sign] at cut
      have behind : more <:+ name ++ rest := by
        rw [cut, ← List.append_assoc]
        exact (List.suffix_cons _ _).trans (List.suffix_append _ _)
      obtain ⟨default, gap, blank, rfl⟩ :=
        default_of_defaultOf? (getLast?_of_suffix behind last) read
      rw [cut]
      exact .optional identifier before_blank blank default
    · cases h
  · cases h

/-- A text is written as what is read from it. -/
theorem written_parseChars (trimmed : Trimmed s) : Written s (parseChars s) := by
  have behind (mark : List Char) {name : List Char} (eq : s = mark ++ name) :
      ∃ gap, blankText gap = true ∧ name = gap ++ trim name := by
    have last := getLast?_of_suffix (eq ▸ List.suffix_append _ _) trimmed.last
    obtain ⟨gap, blank, cut⟩ := exists_trimLeft name
    exact ⟨gap, blank, by rwa [trim_eq_trimLeft last]⟩
  unfold parseChars named
  rw [trimmed.trim_eq]
  split
  · exact .forward
  · next name =>
    obtain ⟨gap, blank, eq⟩ := behind ['&'] rfl
    nth_rewrite 1 [eq]
    exact .block blank (trimmed_trim name)
  · next name =>
    obtain ⟨gap, blank, eq⟩ := behind ['*', '*'] rfl
    nth_rewrite 1 [eq]
    exact .keywordRest blank (trimmed_trim name)
  · next name single =>
    obtain ⟨gap, blank, eq⟩ := behind ['*'] rfl
    nth_rewrite 1 [eq]
    refine .rest blank (trimmed_trim name) ?_
    rw [← eq]
    intro star
    obtain ⟨more, rfl⟩ := List.head?_eq_some_iff.mp star
    exact single more rfl
  · next other block double star =>
    cases keyword : keyword? s with
    | some p => exact written_of_keyword? trimmed.last keyword
    | none =>
      cases optional : optional? s with
      | some p => exact written_of_optional? trimmed.last optional
      | none =>
        refine .required other ?_ keyword optional
        intro c hc
        obtain ⟨more, rfl⟩ := List.head?_eq_some_iff.mp hc
        exact ⟨fun eq => block more (by rw [eq]), fun eq => star more (by rw [eq])⟩

theorem head?_identifier (h : Identifier name) (rest : List Char) :
    ∃ c, (name ++ rest).head? = some c ∧ Text.startsIdentifier c = true := by
  obtain ⟨c, more, rfl, starts, -⟩ := h
  exact ⟨c, rfl, starts⟩

/-- A text that begins with an identifier is read as one of the forms with a name. -/
theorem parseChars_identifier (h : Identifier name) (trimmed : Trimmed (name ++ rest)) :
    parseChars (name ++ rest) = (keyword? (name ++ rest)).getD
      ((optional? (name ++ rest)).getD ⟨String.ofList (name ++ rest), .required, none⟩) := by
  obtain ⟨c, first, starts⟩ := head?_identifier h rest
  unfold parseChars
  rw [trimmed.trim_eq]
  generalize name ++ rest = s at first
  split
  case h_5 => rfl
  all_goals
    cases first
    cases starts

theorem takeIdentifier?_colon (h : Identifier name) (rest : List Char) :
    takeIdentifier? (name ++ ':' :: rest) = some (name, ':' :: rest) := by
  refine takeIdentifier?_eq_some_iff.mpr ⟨h, rfl, ?_⟩
  rintro _ ⟨⟩
  decide

/-- Before the sign of a default stands the sign itself or a blank. -/
theorem exists_sign (blank : blankText gap = true) (rest : List Char) :
    ∃ c more, gap ++ '=' :: rest = c :: more ∧ isWord c = false ∧ c ≠ ':' := by
  cases gap with
  | nil => exact ⟨'=', rest, rfl, by decide, by decide⟩
  | cons c gap =>
    have first : isBlank c = true := List.all_eq_true.mp blank c List.mem_cons_self
    refine ⟨c, gap ++ '=' :: rest, rfl, ?_, ?_⟩
    · rw [← Bool.not_eq_true]
      intro word
      exact nomatch first.symm.trans (isBlank_of_isWord word)
    · rintro rfl
      cases first

/-- What is read from a text is the parameter that it is written for. -/
theorem Written.parseChars_eq (h : Written s p) (trimmed : Trimmed s) : parseChars s = p := by
  have trim_name {gap name : List Char} (blank : blankText gap = true) (named : Trimmed name) :
      trim (gap ++ name) = name := by
    rw [trim, trimLeft_blank_append blank, ← trim, named.trim_eq]
  cases h with
  | forward => rfl
  | block blank named =>
    simp [parseChars, Parameter.named, trimmed.trim_eq, trim_name blank named]
  | keywordRest blank named =>
    simp [parseChars, Parameter.named, trimmed.trim_eq, trim_name blank named]
  | @rest gap name blank named single =>
    have name_eq := trim_name blank named
    generalize gap ++ name = behind at name_eq single trimmed
    unfold parseChars
    rw [trimmed.trim_eq]
    cases behind with
    | nil => simp [Parameter.named, name_eq]
    | cons c behind =>
      have other : c ≠ '*' := by simpa using single
      simp [Parameter.named, other, name_eq]
  | keywordRequired identifier =>
    rw [parseChars_identifier identifier trimmed, keyword?, takeIdentifier?_colon identifier]
    rfl
  | keywordOptional identifier blank default =>
    rw [parseChars_identifier identifier trimmed, keyword?, takeIdentifier?_colon identifier]
    simp [defaultOf?_blank_append blank default, default.written]
  | @optional name before after value identifier before_blank after_blank default =>
    have sign : trimLeft (before ++ '=' :: (after ++ value)) = '=' :: (after ++ value) :=
      trimLeft_blank_append before_blank _
    obtain ⟨c, more, eq, word, colon⟩ := exists_sign before_blank (after ++ value)
    rw [eq] at sign trimmed ⊢
    have taken : takeIdentifier? (name ++ c :: more) = some (name, c :: more) := by
      refine takeIdentifier?_eq_some_iff.mpr ⟨identifier, rfl, ?_⟩
      rintro _ ⟨⟩
      exact word
    have keyword : keyword? (name ++ c :: more) = none := by
      rw [keyword?, taken]
      simp [colon]
    rw [parseChars_identifier identifier trimmed, keyword, optional?, taken]
    simp [sign, defaultOf?_blank_append after_blank default]
  | required other unmarked keyword optional =>
    unfold parseChars
    rw [trimmed.trim_eq]
    split
    · exact absurd rfl other
    · exact absurd rfl (unmarked _ rfl).1
    · exact absurd rfl (unmarked _ rfl).2
    · exact absurd rfl (unmarked _ rfl).2
    · rw [keyword, optional]
      rfl

/-- A rest parameter whose name would be read as part of its mark. -/
def Doubled (p : Parameter) : Prop := p.kind = .rest ∧ p.name.toList.head? = some '*'

/-- How a parameter is rendered, character by character. -/
theorem toList_render (p : Parameter) : p.render.toList =
    match p.kind with
    | .required => p.name.toList
    | .optional => p.name.toList ++ ' ' :: '=' :: ' ' :: p.defaultText.toList
    | .rest => '*' :: p.name.toList
    | .keywordRequired => p.name.toList ++ [':']
    | .keywordOptional => p.name.toList ++ ':' :: ' ' :: p.defaultText.toList
    | .keywordRest => '*' :: '*' :: p.name.toList
    | .block => '&' :: p.name.toList
    | .forward => ['.', '.', '.'] := by
  unfold render
  cases p.kind <;> simp [ToString.toString]

/-- Rendering a parameter writes it, unless the mark and the name run together. -/
theorem Written.render (h : Written s p) (single : ¬Doubled p) : Written p.render.toList p := by
  have space : blankText [' '] = true := by decide
  rw [toList_render]
  cases h with
  | forward => exact .forward
  | block blank named => simpa using @Written.block [] _ rfl named
  | keywordRest blank named => simpa using @Written.keywordRest [] _ rfl named
  | @rest gap name blank named _ =>
    have star : name.head? ≠ some '*' := fun star => single ⟨rfl, by simpa using star⟩
    simpa using @Written.rest [] _ rfl named star
  | keywordRequired identifier => simpa using Written.keywordRequired identifier
  | keywordOptional identifier blank default =>
    simpa [defaultText] using Written.keywordOptional identifier space default
  | optional identifier before_blank after_blank default =>
    simpa [defaultText] using Written.optional identifier space space default
  | required other unmarked keyword optional =>
    simpa using Written.required other unmarked keyword optional

/-- A doubled mark is read as that of a keyword rest parameter. -/
theorem Doubled.parse_render_ne (h : Doubled p) : parse p.render ≠ p := by
  obtain ⟨kind, star⟩ := h
  obtain ⟨more, name_eq⟩ := List.head?_eq_some_iff.mp star
  have written : p.render.toList = '*' :: '*' :: more := by
    rw [toList_render, kind, name_eq]
  have plain : ∀ c ∈ ('*' :: '*' :: more).head?, isBlank c = false := by
    rintro _ ⟨⟩
    decide
  have trimmed : trim ('*' :: '*' :: more) = '*' :: '*' :: trimRight more := by
    rw [trim, trimLeft_eq_self plain, trimRight_cons (by decide), trimRight_cons (by decide)]
  intro same
  have other : (parse p.render).kind = .keywordRest := by
    rw [parse, written, parseChars, trimmed]
    rfl
  rw [same, kind] at other
  cases other

theorem Written.trimmed_render (h : Written s p) (trimmed : Trimmed s) :
    Trimmed p.render.toList := by
  have identifier_first {name : List Char} (h : Identifier name) (more : List Char) :
      name ++ more ≠ [] ∧ ∀ c ∈ (name ++ more).head?, isBlank c = false := by
    obtain ⟨c, first, starts⟩ := head?_identifier h more
    refine ⟨fun none => ?_, fun d hd => ?_⟩
    · rw [none] at first
      cases first
    · rw [first] at hd
      cases hd
      exact isBlank_of_isWord (isWord_of_startsIdentifier starts)
  rw [toList_render]
  cases h with
  | forward => exact trimmed
  | block blank named => exact .cons (by decide) (by simpa using named)
  | keywordRest blank named => exact .cons (by decide) (.cons (by decide) (by simpa using named))
  | rest blank named single => exact .cons (by decide) (by simpa using named)
  | keywordRequired identifier => simpa using trimmed
  | @keywordOptional name gap value identifier blank default =>
    obtain ⟨listed, first⟩ := identifier_first identifier [':', ' ']
    simpa [defaultText] using default.trimmed.append first listed default.written
  | @optional name before after value identifier before_blank after_blank default =>
    obtain ⟨listed, first⟩ := identifier_first identifier [' ', '=', ' ']
    simpa [defaultText] using default.trimmed.append first listed default.written
  | required other unmarked keyword optional => simpa using trimmed

theorem Written.render_ne_nil (h : Written s p) (filled : s ≠ []) : p.render.toList ≠ [] := by
  rw [toList_render]
  cases h with
  | required other unmarked keyword optional => simpa using filled
  | _ => simp

theorem inert_of_isWord (word : isWord c = true) : Inert c :=
  inert_of_not_isSpecial (by simp [isSpecial, word])

/-- A text and the rendered parameter differ only in how they begin. -/
theorem Written.exists_tail (h : Written s p) : ∃ head head' tail, (∀ c ∈ head, Inert c) ∧
    (∀ c ∈ head', Inert c) ∧ s = head ++ tail ∧ p.render.toList = head' ++ tail := by
  have inert_blank {gap : List Char} (blank : blankText gap = true) : ∀ c ∈ gap, Inert c :=
    fun c hc => inert_of_isBlank (List.all_eq_true.mp blank c hc)
  have inert_name {name : List Char} (h : Identifier name) : ∀ c ∈ name, Inert c :=
    fun c hc => inert_of_isWord (h.isWord c hc)
  rw [toList_render]
  cases h with
  | forward => exact ⟨[], [], _, by simp, by simp, rfl, rfl⟩
  | @block gap name blank named =>
    have mark : Inert '&' := by decide
    exact ⟨'&' :: gap, ['&'], name, List.forall_mem_cons.mpr ⟨mark, inert_blank blank⟩,
      List.forall_mem_singleton.mpr mark, rfl, by simp⟩
  | @keywordRest gap name blank named =>
    have mark : Inert '*' := by decide
    refine ⟨'*' :: '*' :: gap, ['*', '*'], name, ?_, by simpa using mark, rfl, by simp⟩
    simpa using ⟨mark, inert_blank blank⟩
  | @rest gap name blank named single =>
    have mark : Inert '*' := by decide
    exact ⟨'*' :: gap, ['*'], name, List.forall_mem_cons.mpr ⟨mark, inert_blank blank⟩,
      List.forall_mem_singleton.mpr mark, rfl, by simp⟩
  | keywordRequired identifier => exact ⟨[], [], _, by simp, by simp, rfl, by simp⟩
  | @keywordOptional name gap value identifier blank default =>
    have colon : Inert ':' ∧ Inert ' ' := by decide
    refine ⟨name ++ ':' :: gap, name ++ [':', ' '], value, ?_, ?_, by simp, by simp [defaultText]⟩
    · exact List.forall_mem_append.mpr
        ⟨inert_name identifier, List.forall_mem_cons.mpr ⟨colon.1, inert_blank blank⟩⟩
    · exact List.forall_mem_append.mpr ⟨inert_name identifier, by simpa using colon⟩
  | @optional name before after value identifier before_blank after_blank default =>
    have sign : Inert '=' ∧ Inert ' ' := by decide
    refine ⟨name ++ (before ++ '=' :: after), name ++ [' ', '=', ' '], value, ?_, ?_, by simp,
      by simp [defaultText]⟩
    · refine List.forall_mem_append.mpr ⟨inert_name identifier, List.forall_mem_append.mpr
        ⟨inert_blank before_blank, List.forall_mem_cons.mpr ⟨sign.1, inert_blank after_blank⟩⟩⟩
    · exact List.forall_mem_append.mpr ⟨inert_name identifier, by simpa using ⟨sign.2, sign⟩⟩
  | required other unmarked keyword optional => exact ⟨[], [], _, by simp, by simp, rfl, by simp⟩

end RubyIndex.Parameter
