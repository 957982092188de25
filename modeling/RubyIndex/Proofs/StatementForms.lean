import Mathlib.Data.List.Basic
import RubyIndex.Statement

/-! The forms of statements. Forms that open or close a body or define a method begin with
different words, so that the order in which they are tried decides nothing about them. -/
namespace RubyIndex.Statement

open Text

/-- Two words of which neither begins with the other do not both begin a text. -/
theorem apart {first second s : List Char} (h : first <+: s) (k : second <+: s)
    (distinct : ¬first <+: second ∧ ¬second <+: first) : False :=
  (List.prefix_or_prefix_of_prefix h k).elim distinct.1 distinct.2

theorem prefix_of_word? {word : String} {s rest : List Char} (h : word? word s = some rest) :
    word.toList <+: s :=
  ⟨rest, List.isPrefixOf?_eq_some_iff_append_eq.mp h⟩

theorem prefix_of_afterWord? {word : String} {s rest : List Char}
    (h : afterWord? word s = some rest) : word.toList <+: s := by
  unfold afterWord? at h
  split at h
  · next found => exact prefix_of_word? found
  · cases h

theorem prefix_of_argumentOf? {word : String} {s : List Char} {a : Option (List Char)}
    (h : argumentOf? word s = some a) : word.toList <+: s := by
  unfold argumentOf? at h
  split at h
  · next eq => exact ⟨[], by rw [eq, List.append_nil]⟩
  · obtain ⟨rest, after, -⟩ := Option.map_eq_some_iff.mp h
    exact prefix_of_afterWord? after

theorem prefix_of_isClose {s : List Char} (h : isClose s = true) : "end".toList <+: s := by
  unfold isClose at h
  split at h
  · next found => exact prefix_of_argumentOf? found
  · next found => exact prefix_of_argumentOf? found
  · cases h

theorem prefix_of_isOpenSingleton {s : List Char} (h : isOpenSingleton s = true) :
    "class".toList <+: s := by
  unfold isOpenSingleton at h
  split at h
  · cases h
  · next found => exact prefix_of_word? found

theorem prefix_of_startsDefinition {s : List Char} (h : startsDefinition s = true) :
    "def".toList <+: s := by
  unfold startsDefinition at h
  split at h
  · next found => exact prefix_of_word? found
  · next found => exact prefix_of_word? found
  · cases h

def header? (s : List Char) : Option Header := classHeader? s <|> moduleHeader? s

theorem header?_eq_some_iff {s : List Char} {h : Header} :
    header? s = some h ↔
      classHeader? s = some h ∨ classHeader? s = none ∧ moduleHeader? s = some h := by
  simp [header?]

theorem prefix_of_classHeader? {s : List Char} {h : Header} (read : classHeader? s = some h) :
    "class".toList <+: s := by
  simp only [classHeader?, Option.bind_eq_bind, Option.bind_eq_some_iff] at read
  obtain ⟨rest, after, -⟩ := read
  exact prefix_of_afterWord? after

theorem prefix_of_moduleHeader? {s : List Char} {h : Header} (read : moduleHeader? s = some h) :
    "module".toList <+: s := by
  simp only [moduleHeader?, Option.bind_eq_bind, Option.bind_eq_some_iff] at read
  obtain ⟨rest, after, -⟩ := read
  exact prefix_of_afterWord? after

theorem prefix_of_header? {s : List Char} {h : Header} (read : header? s = some h) :
    "class".toList <+: s ∨ "module".toList <+: s :=
  (header?_eq_some_iff.mp read).imp prefix_of_classHeader? fun h => prefix_of_moduleHeader? h.2

def visibilityArgument? (s : List Char) : Option (Visibility × Option (List Char)) :=
  (argumentOf? "private" s).map (Visibility.priv, ·) <|>
    (argumentOf? "protected" s).map (Visibility.prot, ·) <|>
    (argumentOf? "public" s).map (Visibility.pub, ·)

theorem visibility?_eq (s : List Char) :
    visibility? s = (visibilityArgument? s).map fun p => withVisibility p.1 p.2 := by
  unfold visibility? visibilityArgument?
  cases argumentOf? "private" s <;> cases argumentOf? "protected" s <;>
    cases argumentOf? "public" s <;> rfl

theorem prefix_of_visibilityArgument? {s : List Char} {p : Visibility × Option (List Char)}
    (h : visibilityArgument? s = some p) : "p".toList <+: s := by
  simp only [visibilityArgument?, Option.orElse_eq_orElse, Option.orElse_eq_or,
    Option.or_eq_some_iff, Option.map_eq_some_iff] at h
  rcases h with ⟨a, found, -⟩ | ⟨-, ⟨a, found, -⟩ | ⟨-, a, found, -⟩⟩
  all_goals
    refine List.IsPrefix.trans ?_ (prefix_of_argumentOf? found)
    decide

def isPlain : Statement → Bool
  | close | openSingleton | openNamespace _ | define .. => false
  | _ => true

theorem moduleFunction?_plain {s : List Char} {st : Statement}
    (read : moduleFunction? s = some st) : st.isPlain = true := by
  obtain ⟨a, -, rfl⟩ := Option.map_eq_some_iff.mp read
  cases a <;> rfl

theorem alias?_plain {s : List Char} {st : Statement} (read : alias? s = some st) :
    st.isPlain = true := by
  simp only [alias?, Option.bind_eq_bind, Option.bind_eq_some_iff] at read
  obtain ⟨rest, -, read⟩ := read
  split at read
  · cases read
  · split at read <;> (cases read; rfl)

theorem mixin?_plain {s : List Char} {st : Statement} (read : mixin? s = some st) :
    st.isPlain = true := by
  simp only [mixin?, Option.orElse_eq_orElse, Option.orElse_eq_or,
    Option.or_eq_some_iff, Option.map_eq_some_iff] at read
  rcases read with ⟨a, -, rfl⟩ | ⟨-, ⟨a, -, rfl⟩ | ⟨-, a, -, rfl⟩⟩ <;> rfl

theorem globalAssignment?_plain {s : List Char} {st : Statement}
    (read : globalAssignment? s = some st) : st.isPlain = true := by
  unfold globalAssignment? at read
  split at read
  · split at read
    · dsimp only at read
      split at read <;> cases read
      rfl
    · cases read
  · cases read

theorem constantAssignment?_plain {s : List Char} {st : Statement}
    (read : constantAssignment? s = some st) : st.isPlain = true := by
  simp only [constantAssignment?, Option.bind_eq_bind, Option.bind_eq_some_iff] at read
  obtain ⟨⟨name, rest⟩, -, read⟩ := read
  split at read
  · dsimp only at read
    split at read <;> cases read
    rfl
  · cases read

inductive Reads (s : List Char) : Statement → Prop
  | close (form : isClose s = true) : Reads s .close
  | openSingleton (form : isOpenSingleton s = true) : Reads s .openSingleton
  | define (form : startsDefinition s = true) : Reads s (.define none (String.ofList s))
  | openNamespace {h : Header} (form : header? s = some h) : Reads s (.openNamespace h)
  | visibility {v : Visibility} {a : Option (List Char)}
      (form : visibilityArgument? s = some (v, a)) : Reads s (withVisibility v a)
  | plain {st : Statement} (form : st.isPlain = true) : Reads s st

theorem plain_of_later_form {s : List Char} {st : Statement}
    (h : (moduleFunction? s).or ((alias? s).or ((mixin? s).or ((globalAssignment? s).or
      (constantAssignment? s)))) = some st) : st.isPlain = true := by
  simp only [Option.or_eq_some_iff] at h
  rcases h with h | ⟨-, h | ⟨-, h | ⟨-, h | ⟨-, h⟩⟩⟩⟩
  · exact moduleFunction?_plain h
  · exact alias?_plain h
  · exact mixin?_plain h
  · exact globalAssignment?_plain h
  · exact constantAssignment?_plain h

theorem reads_read (s : List Char) : Reads s (read s) := by
  unfold read
  split
  · next h => exact .close h
  split
  · next h => exact .openSingleton h
  split
  · next h => exact .define h
  rw [visibility?_eq]
  simp only [Option.orElse_eq_orElse, Option.orElse_eq_or]
  cases klass : classHeader? s with
  | some h => exact .openNamespace (header?_eq_some_iff.mpr (.inl klass))
  | none =>
  cases modul : moduleHeader? s with
  | some h => exact .openNamespace (header?_eq_some_iff.mpr (.inr ⟨klass, modul⟩))
  | none =>
  cases argument : visibilityArgument? s with
  | some p => exact .visibility argument
  | none =>
  refine .plain ?_
  simp only [Option.map_none, Option.none_or]
  cases later : (moduleFunction? s).or _ with
  | some st => exact plain_of_later_form later
  | none => rfl

variable {s : List Char}

/-- The `def` line in a line: the line itself, or what a visibility is given for. -/
def definitionIn? (s : List Char) : Option (List Char) :=
  if startsDefinition s then some s
  else ((visibilityArgument? s).bind (·.2)).filter startsDefinition

theorem withVisibility_eq_define_iff {v : Visibility} {a : Option (List Char)}
    {visibility : Option Visibility} {source : String} :
    withVisibility v a = .define visibility source ↔
      ∃ d, a = some d ∧ startsDefinition d = true ∧ visibility = some v ∧
        source = String.ofList d := by
  unfold withVisibility
  cases a with
  | none => simp
  | some d =>
    by_cases h : startsDefinition d = true
    · simp only [h, if_true, define.injEq, Option.some.injEq, exists_eq_left', true_and]
      exact and_congr eq_comm eq_comm
    · simp [h]

theorem withVisibility_ne {v : Visibility} {a : Option (List Char)} :
    withVisibility v a ≠ .close ∧ withVisibility v a ≠ .openSingleton ∧
      ∀ h, withVisibility v a ≠ .openNamespace h := by
  unfold withVisibility
  cases a with
  | none => simp
  | some d => by_cases h : startsDefinition d = true <;> simp [h]

theorem read_eq_close_iff : read s = .close ↔ isClose s = true := by
  constructor
  · intro h
    generalize eq : read s = st at h
    have form := eq ▸ reads_read s
    cases form with
    | close form => exact form
    | visibility => exact absurd h withVisibility_ne.1
    | plain form => simp [h, isPlain] at form
    | _ => cases h
  · intro h
    simp [read, h]

theorem read_eq_openSingleton_iff : read s = .openSingleton ↔ isOpenSingleton s = true := by
  constructor
  · intro h
    generalize eq : read s = st at h
    have form := eq ▸ reads_read s
    cases form with
    | openSingleton form => exact form
    | visibility => exact absurd h withVisibility_ne.2.1
    | plain form => simp [h, isPlain] at form
    | _ => cases h
  · intro h
    have close : ¬isClose s = true := fun c =>
      apart (prefix_of_isClose c) (prefix_of_isOpenSingleton h) (by decide)
    simp [read, h, close]

/-- What follows `class` is a path or begins with `<<`. -/
theorem not_isOpenSingleton_of_classHeader? {h : Header} (read : classHeader? s = some h) :
    ¬isOpenSingleton s = true := by
  intro singleton
  simp only [classHeader?, Option.bind_eq_bind, Option.bind_eq_some_iff] at read
  obtain ⟨text, after, ⟨path, rest⟩, taken, -⟩ := read
  unfold afterWord? at after
  split at after
  case h_2 => cases after
  case h_1 c more found =>
    unfold isOpenSingleton at singleton
    by_cases blank : isBlank c = true
    · simp only [blank, if_true, Option.some.injEq] at after
      have text_eq : trimLeft (c :: more) = text := by
        rw [← after, trimLeft, trimLeft, List.dropWhile_cons_of_pos blank]
      simp only [found, text_eq] at singleton
      split at singleton
      · cases singleton
      · next mark =>
        obtain ⟨tail, rfl⟩ := prefix_of_word? mark
        simp [takePath?, takeConstant?, isCapital] at taken
    · simp [blank] at after

theorem read_eq_openNamespace_iff {h : Header} :
    read s = .openNamespace h ↔ header? s = some h := by
  constructor
  · intro eq
    have form := eq ▸ reads_read s
    generalize same : Statement.openNamespace h = st at form
    cases form with
    | openNamespace form =>
      cases same
      exact form
    | visibility => exact absurd same.symm (withVisibility_ne.2.2 h)
    | plain form => simp [← same, isPlain] at form
    | _ => cases same
  · intro form
    have word := prefix_of_header? form
    have close : ¬isClose s = true := fun c => word.elim
      (fun w => apart (prefix_of_isClose c) w (by decide))
      fun w => apart (prefix_of_isClose c) w (by decide)
    have define : ¬startsDefinition s = true := fun d => word.elim
      (fun w => apart (prefix_of_startsDefinition d) w (by decide))
      fun w => apart (prefix_of_startsDefinition d) w (by decide)
    have singleton : ¬isOpenSingleton s = true := by
      rcases header?_eq_some_iff.mp form with klass | ⟨-, modul⟩
      · exact not_isOpenSingleton_of_classHeader? klass
      · intro o
        exact apart (prefix_of_isOpenSingleton o) (prefix_of_moduleHeader? modul) (by decide)
    have first : ((classHeader? s).map openNamespace).or ((moduleHeader? s).map openNamespace) =
        some (Statement.openNamespace h) := by
      rcases header?_eq_some_iff.mp form with klass | ⟨klass, modul⟩
      · simp [klass]
      · simp [klass, modul]
    simp only [read, close, singleton, define, Bool.false_eq_true, if_false,
      Option.orElse_eq_orElse, Option.orElse_eq_or]
    rw [← Option.or_assoc, first]
    rfl

/-- A line is read as a definition exactly if a `def` line stands in it. -/
theorem read_eq_define_iff {source : String} :
    (∃ visibility, read s = .define visibility source) ↔
      ∃ d, definitionIn? s = some d ∧ source = String.ofList d := by
  constructor
  · rintro ⟨visibility, eq⟩
    have form := eq ▸ reads_read s
    generalize same : Statement.define visibility source = st at form
    cases form with
    | define form =>
      cases same
      exact ⟨s, by simp [definitionIn?, form], rfl⟩
    | @visibility v a argument =>
      obtain ⟨d, rfl, starts, -, rfl⟩ := withVisibility_eq_define_iff.mp same.symm
      have define : ¬startsDefinition s = true := fun d =>
        apart (prefix_of_startsDefinition d) (prefix_of_visibilityArgument? argument) (by decide)
      exact ⟨d, by simp [definitionIn?, define, argument, starts], rfl⟩
    | plain form => simp [← same, isPlain] at form
    | _ => cases same
  · rintro ⟨d, found, rfl⟩
    unfold definitionIn? at found
    split at found
    · next starts =>
      cases found
      have close : ¬isClose s = true := fun c =>
        apart (prefix_of_isClose c) (prefix_of_startsDefinition starts) (by decide)
      have singleton : ¬isOpenSingleton s = true := fun o =>
        apart (prefix_of_isOpenSingleton o) (prefix_of_startsDefinition starts) (by decide)
      exact ⟨none, by simp [read, close, singleton, starts]⟩
    · next define =>
      rw [Option.filter_eq_some_iff, Option.bind_eq_some_iff] at found
      obtain ⟨⟨⟨v, a⟩, argument, rfl⟩, starts⟩ := found
      refine ⟨some v, ?_⟩
      have word := prefix_of_visibilityArgument? argument
      have close : ¬isClose s = true := fun c =>
        apart (prefix_of_isClose c) word (by decide)
      have singleton : ¬isOpenSingleton s = true := fun o =>
        apart (prefix_of_isOpenSingleton o) word (by decide)
      have header : header? s = none := by
        rw [Option.eq_none_iff_forall_ne_some]
        intro h form
        rcases prefix_of_header? form with w | w
        · exact apart w word (by decide)
        · exact apart w word (by decide)
      obtain ⟨klass, modul⟩ : classHeader? s = none ∧ moduleHeader? s = none := by
        simpa [header?] using header
      simp [read, close, singleton, define, klass, modul, visibility?_eq, argument,
        withVisibility, starts]

end RubyIndex.Statement
