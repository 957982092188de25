import RubyIndex.Proofs.Identifiers
import RubyIndex.Proofs.MixinOrder
import RubyIndex.Proofs.OpenOwners
import RubyIndex.Proofs.TrimmedTexts

/-! Definitions on one line. However the parameter list and the `end` are written behind the name of
a method, the line adds one method to the namespace of the body that is open. -/
namespace RubyIndex

namespace Text

theorem splitAtLast?_eq_none {c : Char} {s : List Char} (missing : c ∉ s) :
    splitAtLast? c s = none := by
  induction s with
  | nil => rfl
  | cons d s ih =>
    rw [splitAtLast?, ih fun behind => missing (List.mem_cons_of_mem d behind)]
    refine if_neg ?_
    rintro rfl
    exact missing List.mem_cons_self

theorem splitAtLast?_append {c : Char} (before : List Char) {after : List Char} (last : c ∉ after) :
    splitAtLast? c (before ++ c :: after) = some (before, after) := by
  induction before with
  | nil =>
    rw [List.nil_append, splitAtLast?, splitAtLast?_eq_none last]
    exact if_pos rfl
  | cons d before ih => rw [List.cons_append, splitAtLast?, ih]

end Text

namespace Statement

/-- The names that methods have: operators, and identifiers that `?`, `!` or `=` may follow. -/
inductive MethodName : List Char → Prop
  | operator {name : String} (listed : name ∈ operators) : MethodName name.toList
  | identifier {name mark : List Char} (h : Parameter.Identifier name)
      (optional : mark ∈ [[], ['?'], ['!'], ['=']]) : MethodName (name ++ mark)

theorem mem_mark {mark : List Char} (optional : mark ∈ [[], ['?'], ['!'], ['=']]) :
    ∀ c ∈ mark, c = '?' ∨ c = '!' ∨ c = '=' := by
  simp only [List.mem_cons, List.not_mem_nil, or_false] at optional
  rcases optional with rfl | rfl | rfl | rfl
  all_goals simp

variable {name tail p s : List Char} {onSelf : Bool}

theorem isMethodName_iff : isMethodName name = true ↔ MethodName name := by
  rw [isMethodName, Bool.or_eq_true, List.contains_iff_mem]
  constructor
  · rintro (listed | form)
    · simpa using MethodName.operator listed
    · split at form
      · next first rest taken =>
        obtain ⟨identifier, rfl, -⟩ := Parameter.takeIdentifier?_eq_some_iff.mp taken
        exact .identifier identifier (by simpa [or_assoc] using form)
      · cases form
  · rintro (@⟨name, listed⟩ | @⟨name, mark, identifier, optional⟩)
    · exact .inl (by simpa using listed)
    · have taken : Parameter.takeIdentifier? (name ++ mark) = some (name, mark) := by
        refine Parameter.takeIdentifier?_eq_some_iff.mpr ⟨identifier, rfl, fun c hc => ?_⟩
        rcases mem_mark optional c (List.mem_of_mem_head? hc) with rfl | rfl | rfl
        all_goals rfl
      right
      simpa [taken, or_assoc] using optional

def inName (c : Char) : Bool := !Text.isBlank c && c != '(' && c != ';'

theorem MethodName.inName (h : MethodName name) :
    name ≠ [] ∧ ∀ c ∈ name, inName c = true ∧ c ≠ '.' := by
  cases h with
  | @operator name listed =>
    have all : operators.all (fun name => !name.toList.isEmpty &&
        name.toList.all fun c => Statement.inName c && c != '.') = true := by decide
    simpa using List.all_eq_true.mp all name listed
  | @identifier name mark identifier optional =>
    have word {c : Char} (h : Text.isWord c = true) : inName c = true ∧ c ≠ '.' := by
      have other {d : Char} (hd : Text.isWord d = false) : c ≠ d := by
        rintro rfl
        exact nomatch h.symm.trans hd
      have open_ := other (d := '(') (by decide)
      have semicolon := other (d := ';') (by decide)
      exact ⟨by simp [inName, Text.isBlank_of_isWord h, open_, semicolon], other (by decide)⟩
    have marks : ∀ c ∈ mark, inName c = true ∧ c ≠ '.' := by
      intro c hc
      rcases mem_mark optional c hc with rfl | rfl | rfl
      all_goals decide
    refine ⟨?_, List.forall_mem_append.mpr ⟨fun c hc => word (identifier.isWord c hc), marks⟩⟩
    obtain ⟨c, more, rfl, -, -⟩ := identifier
    simp

/-- What may follow the name on a line with the parameter list and `end`. A blank list may be left
out. -/
inductive Ending (p : List Char) : List Char → Prop
  | list : Ending p ('(' :: (p ++ ") end".toList))
  | listSemicolon : Ending p ('(' :: (p ++ "); end".toList))
  | spaced : Ending p (" (".toList ++ p ++ ") ; end".toList)
  | semicolon (blank : Text.blankText p = true) : Ending p "; end".toList
  | plain (blank : Text.blankText p = true) : Ending p " end".toList

def definitionLine (onSelf : Bool) (name tail : List Char) : List Char :=
  "def ".toList ++ (if onSelf then "self.".toList else []) ++ name ++ tail

theorem definitionLine_eq (onSelf : Bool) (name tail : List Char) :
    definitionLine onSelf name tail =
      "def".toList ++ ([' '] ++ ((if onSelf then "self.".toList else []) ++ (name ++ tail))) := by
  have first : "def ".toList = "def".toList ++ [' '] := rfl
  change "def ".toList ++ _ ++ name ++ tail = _
  rw [first]
  simp only [List.append_assoc]

/-- A list in parentheses reaches to the last of them, whatever stands in it. -/
theorem definitionTail?_list (gap p : List Char) {after : List Char}
    (blank : Text.blankText gap = true) (last : ')' ∉ after) (ends : (match Text.trimLeft after with
      | ';' :: more => Text.trimLeft more
      | _ => Text.trimLeft after) = "end".toList) :
    definitionTail? (gap ++ '(' :: (p ++ ')' :: after)) = some (some (String.ofList p)) := by
  have first : Text.trimLeft (gap ++ '(' :: (p ++ ')' :: after)) = '(' :: (p ++ ')' :: after) :=
    Text.trimLeft_blank_append blank _
  have split := Text.splitAtLast?_append p last
  rw [definitionTail?, first]
  simp only [split, Option.bind_eq_bind, Option.bind_some]
  exact if_pos (beq_iff_eq.mpr ends)

theorem definitionTail?_ending (h : Ending p tail) : ∃ list, definitionTail? tail = some list ∧
    Parameter.parseList list = Parameter.parseList (some (String.ofList p)) := by
  have none (blank : Text.blankText p = true) :
      Parameter.parseList none = Parameter.parseList (some (String.ofList p)) := by
    simp [Parameter.parseList, blank]
  cases h with
  | list => exact ⟨_, definitionTail?_list [] p rfl (by decide) (by decide), rfl⟩
  | listSemicolon => exact ⟨_, definitionTail?_list [] p rfl (by decide) (by decide), rfl⟩
  | spaced =>
    refine ⟨_, ?_, rfl⟩
    simpa using definitionTail?_list [' '] p rfl (by decide) (by decide)
  | semicolon blank => exact ⟨_, by decide, none blank⟩
  | plain blank => exact ⟨_, by decide, none blank⟩

theorem Ending.head? (h : Ending p tail) : ∃ c more, tail = c :: more ∧ inName c = false := by
  cases h with
  | list | listSemicolon | spaced | semicolon blank | plain blank =>
    exact ⟨_, _, rfl, by decide⟩

/-- The name reaches up to what ends it. -/
theorem span_name (named : MethodName name) (h : Ending p tail) :
    (name ++ tail).span inName = (name, tail) := by
  obtain ⟨c, more, rfl, stop⟩ := h.head?
  refine Text.span_eq_iff.mpr ⟨rfl, fun c hc => (named.inName.2 c hc).1, ?_⟩
  rintro _ ⟨⟩
  exact stop

/-- What has to do with `self` stands before the name. -/
theorem word?_self (named : MethodName name) (h : Ending p tail) :
    word? "self." (name ++ tail) = none := by
  have dot : '.' ∉ name := fun hd => (named.inName.2 _ hd).2 rfl
  obtain ⟨c, more, rfl, stop⟩ := h.head?
  rw [Option.eq_none_iff_forall_ne_some]
  intro rest found
  have begins := prefix_of_word? found
  rcases List.prefix_or_prefix_of_prefix begins (List.prefix_append name _) with within | ⟨u, eq⟩
  · exact dot (within.subset (by decide))
  · rw [← eq, List.prefix_append_right_inj] at begins
    cases u with
    | nil => exact dot (by rw [← List.append_nil name, eq]; decide)
    | cons d u =>
      obtain ⟨rfl, -⟩ := List.cons_prefix_cons.mp begins
      have listed : d ∈ "self.".toList := eq ▸ List.mem_append_right name List.mem_cons_self
      have all : "self.".toList.all inName = true := by decide
      exact nomatch stop.symm.trans (List.all_eq_true.mp all d listed)

theorem word?_append (word : String) (rest : List Char) :
    word? word (word.toList ++ rest) = some rest :=
  List.isPrefixOf?_eq_some_iff_append_eq.mpr rfl

theorem afterWord?_append (word : String) {gap rest : List Char} (blank : Text.blankText gap = true)
    (spaced : gap ≠ []) (first : ∀ c ∈ rest.head?, Text.isBlank c = false) :
    afterWord? word (word.toList ++ (gap ++ rest)) = some rest := by
  obtain ⟨b, gap, rfl⟩ := List.exists_cons_of_ne_nil spaced
  obtain ⟨here, others⟩ : Text.isBlank b = true ∧ Text.blankText gap = true := by
    simpa [Text.blankText] using blank
  rw [afterWord?, word?_append]
  simp [here, Text.trimLeft_blank_append others, Text.trimLeft_eq_self first]

/-- A `def` line is read as it is written: with the name, up to the last closing parenthesis. -/
theorem definition?_definitionLine (onSelf : Bool) (named : MethodName name) (h : Ending p tail) :
    ∃ list, definition? (definitionLine onSelf name tail) =
        some ⟨onSelf, String.ofList name, list⟩ ∧
      Parameter.parseList list = Parameter.parseList (some (String.ofList p)) := by
  obtain ⟨list, tail_eq, same⟩ := definitionTail?_ending h
  refine ⟨list, ?_, same⟩
  have first : ∀ c ∈ ((if onSelf then "self.".toList else []) ++ (name ++ tail)).head?,
      Text.isBlank c = false := by
    obtain ⟨c, more, rfl⟩ := List.exists_cons_of_ne_nil named.inName.1
    have plain := (named.inName.2 c List.mem_cons_self).1
    simp only [inName, Bool.and_eq_true, Bool.not_eq_true'] at plain
    cases onSelf with
    | true =>
      rintro _ ⟨⟩
      rfl
    | false =>
      rintro _ ⟨⟩
      exact plain.1.1
  have name_read : isMethodName name = true := isMethodName_iff.mpr named
  have span :
      (name ++ tail).span (fun c => !Text.isBlank c && c != '(' && c != ';') = (name, tail) :=
    span_name named h
  rw [definition?, definitionLine_eq, afterWord?_append "def" rfl (by simp) first]
  cases onSelf with
  | true =>
    simp only [if_true, word?_append, Option.bind_eq_bind, Option.bind_some, span, name_read,
      tail_eq]
  | false =>
    simp only [Bool.false_eq_true, if_false, List.nil_append, word?_self named h,
      Option.bind_eq_bind, Option.bind_some, span, name_read, if_true, tail_eq]

theorem read_definitionLine (onSelf : Bool) (name tail : List Char) :
    read (definitionLine onSelf name tail) =
      .define none (String.ofList (definitionLine onSelf name tail)) := by
  have starts : startsDefinition (definitionLine onSelf name tail) = true := by
    rw [definitionLine_eq, startsDefinition, word?_append]
    rfl
  have close : ¬isClose (definitionLine onSelf name tail) = true := fun c =>
    apart (prefix_of_isClose c) (prefix_of_startsDefinition starts) (by decide)
  have singleton : ¬isOpenSingleton (definitionLine onSelf name tail) = true := fun o =>
    apart (prefix_of_isOpenSingleton o) (prefix_of_startsDefinition starts) (by decide)
  simp [read, close, singleton, starts]

theorem Ending.getLast? (h : Ending p tail) : tail.getLast? = some 'd' := by
  have behind (before : List Char) {after : List Char} (h : after.getLast? = some 'd') :
      (before ++ after).getLast? = some 'd' := by
    rw [List.getLast?_append, h]
    rfl
  cases h with
  | list => exact behind ('(' :: p) rfl
  | listSemicolon => exact behind ('(' :: p) rfl
  | spaced => exact behind _ rfl
  | semicolon blank | plain blank => rfl

theorem Ending.unbroken (h : Ending p tail) (unbroken : ∀ c ∈ p, Text.isLineEnd c = false) :
    ∀ c ∈ tail, Text.isLineEnd c = false := by
  have around (before behind : List Char) (first : ∀ c ∈ before, Text.isLineEnd c = false)
      (last : ∀ c ∈ behind, Text.isLineEnd c = false) :
      ∀ c ∈ before ++ p ++ behind, Text.isLineEnd c = false :=
    List.forall_mem_append.mpr ⟨List.forall_mem_append.mpr ⟨first, unbroken⟩, last⟩
  cases h with
  | list =>
    exact around ['('] ") end".toList (by simp [Text.isLineEnd]) (by simp [Text.isLineEnd])
  | listSemicolon =>
    exact around ['('] "); end".toList (by simp [Text.isLineEnd]) (by simp [Text.isLineEnd])
  | spaced => exact around _ _ (by simp [Text.isLineEnd]) (by simp [Text.isLineEnd])
  | semicolon blank | plain blank => simp [Text.isLineEnd]

theorem definitionLine_unbroken (onSelf : Bool) (named : MethodName name) (h : Ending p tail)
    (unbroken : ∀ c ∈ p, Text.isLineEnd c = false) :
    ∀ c ∈ definitionLine onSelf name tail, Text.isLineEnd c = false := by
  have words : ∀ c ∈ "def ".toList ++ (if onSelf then "self.".toList else []),
      Text.isLineEnd c = false := by
    cases onSelf <;> simp [Text.isLineEnd]
  have inside : ∀ c ∈ name, Text.isLineEnd c = false := by
    intro c hc
    have plain := (named.inName.2 c hc).1
    simp only [inName, Bool.and_eq_true, Bool.not_eq_true'] at plain
    exact Text.isLineEnd_of_isBlank plain.1.1
  exact List.forall_mem_append.mpr ⟨List.forall_mem_append.mpr ⟨words, inside⟩, h.unbroken unbroken⟩

theorem lineRead_definitionLine (onSelf : Bool) (name : List Char) (h : Ending p tail)
    (number : Nat) :
    Line.read number (definitionLine onSelf name tail) =
      .code (definitionLine onSelf name tail) := by
  have trimmed : Text.trim (definitionLine onSelf name tail) = definitionLine onSelf name tail := by
    refine Text.trim_eq_self ?_ ?_
    · rintro _ ⟨⟩
      rfl
    · simp only [definitionLine_eq, List.getLast?_append, h.getLast?, Option.some_or]
      rintro _ ⟨⟩
      rfl
  rw [Line.read, trimmed]
  rfl

end Statement

def Scope.defined (s : Scope) (onSelf : Bool) (name : List Char) (parameters : List Parameter)
    (documentation : Option String) (line : Nat) : Method where
  name := String.ofList name
  receiver := if onSelf then .singleton else s.receiver
  visibility := if onSelf && s.receiver == .inst then .pub else s.visibility
  parameters := parameters
  documentation := documentation
  line := line

/-- Only `module_function` makes two methods of a definition, and only of one for instances. -/
theorem Scope.place_defined {s : Scope} {onSelf : Bool}
    (single : s.moduleFunctions = true → onSelf = true ∨ s.receiver = .singleton) (name : List Char)
    (parameters : List Parameter) (documentation : Option String) (line : Nat) :
    s.place (s.defined onSelf name parameters documentation line) =
      [s.defined onSelf name parameters documentation line] := by
  refine if_neg ?_
  rw [Bool.and_eq_true, beq_iff_eq]
  rintro ⟨functions, receiver⟩
  rcases single functions with rfl | singleton
  · cases receiver
  · simp [defined, singleton] at receiver

namespace Reading

open Statement

variable {r : Reading} {s : Scope} {path : String} {before : List (List Char)}

structure InBody (path : String) (before : List (List Char)) (r : Reading) (s : Scope) : Prop where
  read : (before.zipIdx 1).foldlM step { path := path } = .ok r
  innermost : r.scopes.head? = some s

/-- A line adds a method to the namespace of a body and does nothing else to what has been read. The
comments above it are used up. -/
structure Adds (r : Reading) (s : Scope) (line : List Char) (number : Nat) (m : Method) : Prop where
  oneLine : ∀ c ∈ line, Text.isLineEnd c = false
  filled : r.Fills s
  step : r.step (line, number) = .ok
    { r with
      comments := []
      namespaces := r.namespaces.modify s.slot fun n => { n with methods := n.methods ++ [m] } }

theorem InBody.fills (h : InBody path before r s) : r.Fills s := by
  obtain ⟨outer, scopes⟩ := List.head?_eq_some_iff.mp h.innermost
  have current : r.current = (s, r) := by simp [Reading.current, scopes]
  have fills := fills_current h.read
  rwa [current] at fills

/-- A definition on one line adds its method. -/
theorem InBody.adds (h : InBody path before r s) {name p tail : List Char} {ps : List Parameter}
    (named : MethodName name) (ending : Ending p tail)
    (unbroken : ∀ c ∈ p, Text.isLineEnd c = false)
    (list : Parameter.parseList (some (String.ofList p)) = .ok ps) (onSelf : Bool) (number : Nat)
    (single : s.moduleFunctions = true → onSelf = true ∨ s.receiver = .singleton) :
    r.Adds s (definitionLine onSelf name tail) number
      (s.defined onSelf name ps (Documentation.join r.comments) number) := by
  refine ⟨definitionLine_unbroken onSelf named ending unbroken, h.fills, ?_⟩
  obtain ⟨source, form, same⟩ := definition?_definitionLine onSelf named ending
  obtain ⟨outer, scopes⟩ := List.head?_eq_some_iff.mp h.innermost
  have current :
      ({ r with comments := [] } : Reading).current = (s, { r with comments := [] }) := by
    simp [Reading.current, scopes]
  have receiver : (if onSelf && s.receiver == .inst then Receiver.singleton else s.receiver) =
      if onSelf then .singleton else s.receiver := by
    cases onSelf <;> cases s.receiver <;> rfl
  rw [Reading.step, lineRead_definitionLine onSelf name ending number]
  simp only [read_definitionLine, apply, define, String.toList_ofList, form, same, list, current,
    Option.getD_none, receiver]
  rw [← Scope.place_defined single]
  rfl

/-- Whatever the form of the line, in the body of a class a definition adds one method with the name
and the parameters that are written, for the class itself exactly if `self.` is. In `class << self`
a definition adds the method that it adds with `self.` in the body of the class, but for the line
and the comments above it. -/
theorem definition_lines_agree {name p : List Char} {ps : List Parameter} (named : MethodName name)
    (unbroken : ∀ c ∈ p, Text.isLineEnd c = false)
    (list : Parameter.parseList (some (String.ofList p)) = .ok ps) :
    (∀ {path before r s} (onSelf : Bool) (tail : List Char), InBody path before r s →
      s.receiver = .inst → s.moduleFunctions = false → Ending p tail →
        r.Adds s (definitionLine onSelf name tail) (before.length + 1)
          { name := String.ofList name
            receiver := if onSelf then .singleton else .inst
            visibility := if onSelf then .pub else s.visibility
            parameters := ps
            documentation := Documentation.join r.comments
            line := before.length + 1 }) ∧
      ∀ {path₁ path₂ before₁ before₂ r₁ r₂ s₁ s₂}, InBody path₁ before₁ r₁ s₁ →
        InBody path₂ before₂ r₂ s₂ → s₁.receiver = .inst → s₂.receiver = .singleton →
        s₁.visibility = .pub → s₂.visibility = .pub →
          ∃ m : Method, r₁.Adds s₁ (definitionLine true name ('(' :: (p ++ "); end".toList)))
              (before₁.length + 1)
              { m with
                documentation := Documentation.join r₁.comments
                line := before₁.length + 1 } ∧
            r₂.Adds s₂ (definitionLine false name ('(' :: (p ++ "); end".toList)))
              (before₂.length + 1)
              { m with
                documentation := Documentation.join r₂.comments
                line := before₂.length + 1 } := by
  constructor
  · intro path before r s onSelf tail body receiver functions ending
    have adds := body.adds named ending unbroken list onSelf (before.length + 1)
      (fun on => nomatch functions.symm.trans on)
    simpa [Scope.defined, receiver] using adds
  · intro path₁ path₂ before₁ before₂ r₁ r₂ s₁ s₂ body₁ body₂ receiver₁ receiver₂ visibility₁
      visibility₂
    have adds₁ := body₁.adds named .listSemicolon unbroken list true (before₁.length + 1)
      (fun _ => .inl rfl)
    have adds₂ := body₂.adds named .listSemicolon unbroken list false (before₂.length + 1)
      (fun _ => .inr receiver₂)
    refine ⟨s₁.defined true name ps none 0, adds₁, ?_⟩
    simpa [Scope.defined, receiver₁, receiver₂, visibility₂] using adds₂

def shelfLines (inner : String) : List (List Char) :=
  ["class Shelf".toList, inner.toList, "# Puts a book there.".toList]

def shelfScope : Scope := { slot := 0, owner := "Shelf", line := 1 }

def shelfSingleton : Scope := { shelfScope with receiver := .singleton, line := 2 }

def shelfReading (scopes : List Scope) : Reading where
  path := "shelf.rb"
  namespaces :=
    [{ kind := .klass, name := "Shelf", qualifiedName := "Shelf", path := "shelf.rb", line := 1 }]
  scopes := scopes
  comments := ["Puts a book there.".toList]

/-- The parameter list has a closing parenthesis in a string literal. -/
theorem shelf_definitions_agree :
    MethodName "[]=".toList ∧
      Parameter.parseList (some "row = ')', book") =
        .ok [⟨"row", .optional, some "')'"⟩, ⟨"book", .required, none⟩] ∧
      InBody "shelf.rb" (shelfLines "") (shelfReading [shelfScope]) shelfScope ∧
      InBody "shelf.rb" (shelfLines "class << self") (shelfReading [shelfSingleton, shelfScope])
        shelfSingleton ∧
      (shelfReading [shelfScope]).Adds shelfScope "def [](row = ')', book) end".toList 4
        { name := "[]"
          parameters := [⟨"row", .optional, some "')'"⟩, ⟨"book", .required, none⟩]
          documentation := some "Puts a book there."
          line := 4 } ∧
      ∃ m, (shelfReading [shelfScope]).Adds shelfScope
          "def self.[]=(row = ')', book); end".toList 4 m ∧
        (shelfReading [shelfSingleton, shelfScope]).Adds shelfSingleton
          "def []=(row = ')', book); end".toList 4 m := by
  have name : MethodName "[]".toList := isMethodName_iff.mp (by decide)
  have setter : MethodName "[]=".toList := isMethodName_iff.mp (by decide)
  have list : Parameter.parseList (some "row = ')', book") =
      .ok [⟨"row", .optional, some "')'"⟩, ⟨"book", .required, none⟩] := by decide
  have unbroken : ∀ c ∈ "row = ')', book".toList, Text.isLineEnd c = false := by
    simp [Text.isLineEnd]
  have body : InBody "shelf.rb" (shelfLines "") (shelfReading [shelfScope]) shelfScope :=
    ⟨by decide, rfl⟩
  have inner : InBody "shelf.rb" (shelfLines "class << self")
      (shelfReading [shelfSingleton, shelfScope]) shelfSingleton := ⟨by decide, rfl⟩
  have alone := (definition_lines_agree name unbroken list).1 false _ body rfl rfl .list
  obtain ⟨m, first, second⟩ :=
    (definition_lines_agree setter unbroken list).2 body inner rfl rfl rfl rfl
  exact ⟨setter, list, body, inner, alone, _, first, second⟩

end Reading

end RubyIndex
