import Mathlib.Data.List.TakeWhile
import RubyIndex.Proofs.BlockRun
import RubyIndex.Proofs.OpenBodies

/-! Which texts can be read as stub files. The line loop refuses the first line that closes a body
where none is open or that holds a `def` line which is not one of a stub, and, if there is none, the
innermost body that is left open. -/
namespace RubyIndex

inductive Offence (before : List CodeLine) (l : CodeLine) : ParseFault → Prop
  | unexpectedEnd (closes : l.closes = true)
      (outside : CodeLine.openings before ≤ CodeLine.closings before) :
      Offence before l .unexpectedEnd
  | malformed {d : List Char} (found : Statement.definitionIn? l.source = some d)
      (form : Statement.definition? d = none) :
      Offence before l (.malformedDefinition (String.ofList d))
  | parameters {d : List Char} {definition : Definition} {list : String}
      (found : Statement.definitionIn? l.source = some d)
      (form : Statement.definition? d = some definition)
      (given : definition.parameters = some list)
      (split : ∀ parts, Parameter.split list ≠ .ok parts) :
      Offence before l (.invalidParameters list)

def Faultless (ls : List CodeLine) : Prop :=
  ∀ before l after fault, ls = before ++ l :: after → ¬Offence before l fault

theorem faultless_nil : Faultless [] := by
  intro before l after fault eq
  simp at eq

theorem Faultless.concat {ls : List CodeLine} {l : CodeLine} (h : Faultless ls)
    (sound : ∀ fault, ¬Offence ls l fault) : Faultless (ls ++ [l]) := by
  intro before l' after fault eq
  rcases List.eq_nil_or_concat after with rfl | ⟨more, last, rfl⟩
  · obtain ⟨rfl, same⟩ := List.append_inj' eq rfl
    obtain rfl := List.singleton_inj.mp same
    exact sound fault
  · rw [List.concat_eq_append, ← List.cons_append, ← List.append_assoc] at eq
    obtain ⟨rfl, -⟩ := List.append_inj' eq rfl
    exact h before l' more fault rfl

namespace Parameter

theorem segmentsFrom_blank {s : List Char} (blank : Text.blankText s = true)
    (current : List Char) : segmentsFrom .plain [] current s = .ok [current.reverse ++ s] := by
  induction s generalizing current with
  | nil => simp [segmentsFrom]
  | cons c rest ih =>
    obtain ⟨hc, blank⟩ : Text.isBlank c = true ∧ Text.blankText rest = true := by
      simpa [Text.blankText] using blank
    have other : ∀ d : Char, Text.isBlank d = false → c ≠ d := by
      rintro d hd rfl
      simp [hd] at hc
    have dollar := other '$' (by decide)
    have mark : isStringMark c = false := by
      simp [isStringMark, other '\'' (by decide), other '"' (by decide)]
    have opener : isOpener c = false := by
      simp [isOpener, other '(' (by decide), other '[' (by decide), other '\x7b' (by decide)]
    have closer : openerOf? c = none := by
      unfold openerOf?
      split
      · exact absurd rfl (other ')' (by decide))
      · exact absurd rfl (other ']' (by decide))
      · exact absurd rfl (other '\x7d' (by decide))
      · rfl
    have comma := other ',' (by decide)
    rw [segmentsFrom]
    simp [dollar, mark, opener, closer, comma, ih blank]

theorem splitChars_blank {s : List Char} (blank : Text.blankText s = true) :
    splitChars s = .ok [] := by
  have trimmed : Text.trim s = [] := by
    have left : Text.trimLeft s = [] := by
      rw [Text.trimLeft, List.dropWhile_eq_nil_iff]
      exact fun c hc => List.all_eq_true.mp blank c hc
    rw [Text.trim, left]
    rfl
  unfold splitChars segments
  rw [segmentsFrom_blank blank]
  simp [trimmed, bind, Except.bind]

/-- A parameter list can be read exactly if it splits. -/
theorem parseList_error_iff {list : String} {e : Unbalanced} :
    parseList (some list) = .error e ↔ split list = .error e := by
  unfold parseList
  by_cases blank : Text.blankText list.toList = true
  · simp [split, blank, splitChars_blank blank]
  · cases parts : split list <;> simp [blank, parts, bind, Except.bind]

theorem parameters_of_split_error {list : String} {e : Unbalanced} (h : split list = .error e) :
    e.parameters = list := by
  unfold split at h
  split at h
  · cases h
  · cases h
    rfl

end Parameter

namespace Statement

def fault? (outside : Bool) : Statement → Option ParseFault
  | close => if outside then some .unexpectedEnd else none
  | define _ source =>
    match definition? source.toList with
    | none => some (.malformedDefinition source)
    | some d =>
      match Parameter.parseList d.parameters with
      | .error e => some (.invalidParameters e.parameters)
      | .ok _ => none
  | _ => none

def leaves (line : Nat) (left : List Nat) : Statement → List Nat
  | close => left.tail
  | openSingleton => line :: left
  | openNamespace h => if h.closed then left else line :: left
  | _ => left

end Statement

namespace Offence

variable {before : List CodeLine} {l : CodeLine} {fault : ParseFault}

theorem fault?_eq (h : Offence before l fault) :
    (Statement.read l.source).fault?
      (decide (CodeLine.openings before ≤ CodeLine.closings before)) = some fault := by
  cases h with
  | unexpectedEnd closes outside =>
    rw [Statement.read_eq_close_iff.mpr closes]
    simp [Statement.fault?, outside]
  | @malformed d found form =>
    obtain ⟨v, read⟩ := Statement.read_eq_define_iff.mpr ⟨d, found, rfl⟩
    simp [read, Statement.fault?, form]
  | @parameters d definition list found form given split =>
    obtain ⟨v, read⟩ := Statement.read_eq_define_iff.mpr ⟨d, found, rfl⟩
    cases parsed : Parameter.split list with
    | ok parts => exact absurd parsed (split parts)
    | error e =>
      have refused := Parameter.parseList_error_iff.mpr parsed
      have same := Parameter.parameters_of_split_error parsed
      simp [read, Statement.fault?, form, given, refused, same]

theorem of_fault?_eq (h : (Statement.read l.source).fault?
    (decide (CodeLine.openings before ≤ CodeLine.closings before)) = some fault) :
    Offence before l fault := by
  cases read : Statement.read l.source with
  | close =>
    rw [read] at h
    have outside : CodeLine.openings before ≤ CodeLine.closings before := by
      by_contra inside
      simp [Statement.fault?, inside] at h
    simp only [Statement.fault?, outside, decide_true, if_true, Option.some.injEq] at h
    exact h ▸ .unexpectedEnd (Statement.read_eq_close_iff.mp read) outside
  | define v source =>
    obtain ⟨d, found, rfl⟩ := Statement.read_eq_define_iff.mp ⟨v, read⟩
    simp only [read, Statement.fault?, String.toList_ofList] at h
    cases form : Statement.definition? d with
    | none =>
      simp only [form, Option.some.injEq] at h
      exact h ▸ .malformed found form
    | some definition =>
      simp only [form] at h
      cases given : definition.parameters with
      | none => simp [given, Parameter.parseList] at h
      | some list =>
        rw [given] at h
        split at h
        · next e refused =>
          have unsplit := Parameter.parseList_error_iff.mp refused
          obtain rfl := Option.some.inj h
          rw [Parameter.parameters_of_split_error unsplit]
          refine .parameters found form given ?_
          intro parts ok
          rw [unsplit] at ok
          cases ok
        · cases h
  | _ => simp [read, Statement.fault?] at h

end Offence

namespace CodeLine

variable {before : List CodeLine} {l : CodeLine} {left : List Nat}

theorem opens_iff : l.opens = true ↔ Statement.read l.source = .openSingleton ∨
    ∃ h, Statement.read l.source = .openNamespace h ∧ h.closed = false := by
  rw [opens, Bool.or_eq_true, Statement.read_eq_openSingleton_iff]
  simp only [Statement.read_eq_openNamespace_iff]
  cases Statement.header? l.source <;> simp

/-- A line with nothing wrong changes what is left open as its statement does. -/
theorem LeftOpen.concat (h : LeftOpen before left)
    (sound : (Statement.read l.source).fault?
      (decide (openings before ≤ closings before)) = none) :
    LeftOpen (before ++ [l]) ((Statement.read l.source).leaves l.number left) := by
  cases read : Statement.read l.source with
  | close =>
    have inside : left ≠ [] := by
      intro none
      simp [read, Statement.fault?, h.eq_nil_iff.mp none] at sound
    obtain ⟨n, outer, rfl⟩ := List.exists_cons_of_ne_nil inside
    exact h.closed (Statement.read_eq_close_iff.mp read)
  | openSingleton => exact h.opened (opens_iff.mpr (.inl read))
  | openNamespace header =>
    cases closed : header.closed with
    | false =>
      simp only [Statement.leaves, closed, Bool.false_eq_true, if_false]
      exact h.opened (opens_iff.mpr (.inr ⟨header, read, closed⟩))
    | true =>
      have plain : Matched [l] := by
        refine matched_plain ?_ ?_
        · rw [← Bool.not_eq_true, opens_iff, read]
          simp [closed]
        · rw [← Bool.not_eq_true, closes, ← Statement.read_eq_close_iff, read]
          simp
      simp only [Statement.leaves, closed, if_true]
      exact h.append plain
  | _ =>
    refine h.append (matched_plain ?_ ?_)
    · rw [← Bool.not_eq_true, opens_iff, read]
      simp
    · rw [← Bool.not_eq_true, closes, ← Statement.read_eq_close_iff, read]
      simp

end CodeLine

namespace Reading

def openLines (r : Reading) : List Nat := r.scopes.map (·.line)

variable {r : Reading}

theorem openLines_current (r : Reading) : r.current.2.openLines = r.openLines := by
  rw [openLines, r.scopes_current, openLines]

theorem path_current (r : Reading) : r.current.2.path = r.path := by
  unfold current
  split <;> rfl

/-- The current scope may change in everything but its line. -/
theorem openLines_setCurrent (r : Reading) {s : Scope} (line : s.line = r.current.1.line) :
    (r.current.2.setCurrent s).openLines = r.openLines := by
  have same := r.scopes_current
  unfold setCurrent
  cases scopes : r.scopes with
  | nil => simp [same, scopes, openLines]
  | cons first outer =>
    have current : r.current.1 = first := by simp [current, scopes]
    simp [same, scopes, openLines, line, current]

theorem path_setCurrent (r : Reading) (s : Scope) : (r.setCurrent s).path = r.path := by
  unfold setCurrent
  split <;> rfl

/-- What a statement does to the path and the open bodies, and why it may not do it. -/
theorem apply_cases (r : Reading) (st : Statement) (line : Nat) (documentation : Option String) :
    match r.apply st line documentation with
    | .ok r' => st.fault? r.openLines.isEmpty = none ∧ r'.path = r.path ∧
        r'.openLines = st.leaves line r.openLines
    | .error e =>
      st.fault? r.openLines.isEmpty = some e.fault ∧ e.path = r.path ∧ e.line = line := by
  cases st with
  | close =>
    simp only [apply, close]
    cases scopes : r.scopes <;> simp [Statement.fault?, Statement.leaves, openLines, scopes]
  | openSingleton =>
    refine ⟨rfl, r.path_current, ?_⟩
    exact congrArg (line :: ·) r.openLines_current
  | openNamespace h =>
    simp only [apply, openNamespace_eq, close]
    cases closed : h.closed <;> simp [Statement.fault?, Statement.leaves, openLines, closed]
  | define visibility source =>
    simp only [apply, define, Statement.fault?]
    cases form : Statement.definition? source.toList with
    | none => exact ⟨rfl, rfl, rfl⟩
    | some d =>
      simp only
      cases Parameter.parseList d.parameters with
      | error e => exact ⟨rfl, rfl, rfl⟩
      | ok parameters => exact ⟨rfl, r.path_current, r.openLines_current⟩
  | setDefault visibility | beginModuleFunctions =>
    exact ⟨rfl, (path_setCurrent _ _).trans r.path_current, r.openLines_setCurrent rfl⟩
  | aliasGlobal newName oldName | assignGlobal name value | unrecognized source =>
    exact ⟨rfl, rfl, rfl⟩
  | _ => exact ⟨rfl, r.path_current, r.openLines_current⟩

theorem step_eq (r : Reading) (numbered : List Char × Nat) :
    match codeLine? numbered with
    | none => ∃ comments, r.step numbered = .ok { r with comments := comments }
    | some l => r.step numbered =
        ({ r with comments := [] } : Reading).apply (Statement.read l.source) l.number
          (Documentation.join r.comments) := by
  unfold step Line.read codeLine?
  cases source : Text.trim numbered.1 with
  | nil => exact ⟨[], by simp⟩
  | cons c rest =>
    by_cases comment : c = '#'
    · subst comment
      simp only [List.head?_cons, or_true, if_true]
      by_cases magic : (decide (numbered.2 ≤ 2) && Documentation.isMagic ('#' :: rest)) = true
      · simp only [magic, if_true]
        exact ⟨r.comments, rfl⟩
      · simp only [magic, Bool.false_eq_true, if_false]
        exact ⟨_, rfl⟩
    · simp [comment]

/-- The line loop from a reading after some lines. It ends with nothing wrong in the lines, or at
the first one with which something is wrong. -/
theorem foldlM_cases (lines : List (List Char × Nat)) {before : List CodeLine} {r : Reading}
    (sound : Faultless before) (left : CodeLine.LeftOpen before r.openLines) :
    match lines.foldlM step r with
    | .ok r' => r'.path = r.path ∧ Faultless (before ++ lines.filterMap codeLine?) ∧
        CodeLine.LeftOpen (before ++ lines.filterMap codeLine?) r'.openLines
    | .error e => e.path = r.path ∧ ∃ earlier l later,
        before ++ lines.filterMap codeLine? = earlier ++ l :: later ∧ Faultless earlier ∧
          Offence earlier l e.fault ∧ e.line = l.number := by
  induction lines generalizing before r with
  | nil =>
    simp only [List.filterMap_nil, List.append_nil]
    exact ⟨rfl, sound, left⟩
  | cons numbered lines ih =>
    have stepped := r.step_eq numbered
    rw [List.foldlM_cons]
    cases line : codeLine? numbered with
    | none =>
      rw [line] at stepped
      obtain ⟨comments, stepped⟩ := stepped
      rw [stepped, List.filterMap_cons_none line]
      exact ih (r := { r with comments := comments }) sound left
    | some l =>
      rw [line] at stepped
      rw [stepped, List.filterMap_cons_some line]
      have applied := apply_cases { r with comments := [] } (Statement.read l.source) l.number
        (Documentation.join r.comments)
      have outside : r.openLines.isEmpty =
          decide (CodeLine.openings before ≤ CodeLine.closings before) := by
        rw [Bool.eq_iff_iff, List.isEmpty_iff, decide_eq_true_iff]
        exact left.eq_nil_iff
      rw [show ({ r with comments := [] } : Reading).openLines = r.openLines from rfl, outside]
        at applied
      revert applied
      cases Reading.apply _ (Statement.read l.source) l.number _ with
      | error e =>
        rintro ⟨fault, path, number⟩
        exact ⟨path, before, l, _, rfl, sound, .of_fault?_eq fault, number⟩
      | ok r' =>
        rintro ⟨fault, path, lines⟩
        have sound : Faultless (before ++ [l]) := by
          refine sound.concat ?_
          intro other offence
          exact nomatch fault.symm.trans offence.fault?_eq
        have left := left.concat fault
        rw [← lines] at left
        have rest := ih sound left
        rw [List.append_assoc, List.singleton_append, path] at rest
        exact rest

/-- A reading is a file if nothing is left open. -/
theorem finish_cases (r : Reading) :
    match r.finish with
    | .ok _ => r.openLines = []
    | .error e => e.path = r.path ∧ (∃ owner, e.fault = .unclosed owner) ∧
        ∃ outer, r.openLines = e.line :: outer := by
  unfold finish
  cases scopes : r.scopes with
  | nil => simp [openLines, scopes]
  | cons s outer =>
    refine ⟨rfl, ⟨s.owner, rfl⟩, outer.map (·.line), ?_⟩
    rw [openLines, scopes, List.map_cons]

end Reading

namespace StubFile

/-- A text can be read exactly if nothing is wrong with its lines and all bodies are closed. If not,
the first line with a fault is reported, or the first line of the innermost body left open. -/
theorem parse_accepts_iff (text path : String) :
    ((∃ f, StubFile.parse text path = .ok f) ↔ Faultless (codeLines text) ∧
        CodeLine.openings (codeLines text) = CodeLine.closings (codeLines text)) ∧
      ∀ e, StubFile.parse text path = .error e → e.path = path ∧
        ((∃ before l after, codeLines text = before ++ l :: after ∧ Faultless before ∧
            Offence before l e.fault ∧ e.line = l.number) ∨
          Faultless (codeLines text) ∧ (∃ owner, e.fault = .unclosed owner) ∧
            ∃ before l after, codeLines text = before ++ l :: after ∧ l.opens = true ∧
              CodeLine.Matched after ∧ e.line = l.number) := by
  have start : CodeLine.LeftOpen [] (Reading.openLines { path := path }) :=
    .matched CodeLine.matched_nil
  have loop := Reading.foldlM_cases ((Text.lines text.toList).zipIdx 1) faultless_nil start
  rw [List.nil_append, ← codeLines] at loop
  unfold StubFile.parse
  revert loop
  cases ((Text.lines text.toList).zipIdx 1).foldlM Reading.step { path := path } with
  | error e =>
    rintro ⟨place, before, l, after, split, sound, offence, line⟩
    refine ⟨⟨?_, ?_⟩, ?_⟩
    · rintro ⟨f, read⟩
      cases read
    · rintro ⟨faultless, -⟩
      exact absurd offence (faultless before l after e.fault split)
    · rintro _ ⟨⟩
      exact ⟨place, .inl ⟨before, l, after, split, sound, offence, line⟩⟩
  | ok r =>
    rintro ⟨place, sound, left⟩
    have balance := left.openings_eq
    have finished := r.finish_cases
    change ((∃ f, r.finish = .ok f) ↔ _) ∧ ∀ e, r.finish = .error e → _
    revert finished
    cases r.finish with
    | ok f =>
      intro closed
      rw [closed, List.length_nil, Nat.add_zero] at balance
      exact ⟨⟨fun _ => ⟨sound, balance⟩, fun _ => ⟨f, rfl⟩⟩, fun e read => nomatch read⟩
    | error e =>
      rintro ⟨samePath, unclosed, outer, openLines⟩
      rw [openLines] at left balance
      rw [List.length_cons] at balance
      refine ⟨⟨?_, ?_⟩, ?_⟩
      · rintro ⟨f, read⟩
        cases read
      · rintro ⟨-, equal⟩
        omega
      · rintro _ ⟨⟩
        refine ⟨samePath.trans place, .inr ⟨sound, unclosed, ?_⟩⟩
        -- The innermost body left open is the one on top of the stack.
        generalize split : codeLines text = ls at left
        generalize top : e.line :: outer = stack at left
        cases left with
        | matched h => cases top
        | @body before after l outer around opens inside =>
          exact ⟨before, l, after, rfl, opens, inside, (List.cons.inj top).1⟩

def unclosedText : String := "# A shape.\n\nclass Shape\nmodule Inner\ndef draw; end\nend"

theorem unclosed_text_refused :
    (StubFile.parse unclosedText "shape.rb").toOption = none ∧
      Faultless (codeLines unclosedText) ∧
      ∃ before l after, codeLines unclosedText = before ++ l :: after ∧ l.opens = true ∧
        CodeLine.Matched after ∧ l.number = 3 := by
  have refused : StubFile.parse unclosedText "shape.rb" =
      .error ⟨"shape.rb", 3, .unclosed "Shape"⟩ := by decide
  refine ⟨by rw [refused]; rfl, ?_⟩
  obtain ⟨-, first | ⟨sound, -, before, l, after, split, opens, inside, line⟩⟩ :=
    (parse_accepts_iff unclosedText "shape.rb").2 _ refused
  · obtain ⟨before, l, after, -, -, offence, -⟩ := first
    cases offence
  · exact ⟨sound, before, l, after, split, opens, inside, line.symm⟩

end StubFile

end RubyIndex
