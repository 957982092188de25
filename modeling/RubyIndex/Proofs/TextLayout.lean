import RubyIndex.Proofs.StatementStep
import RubyIndex.Proofs.TextLines
import RubyIndex.Proofs.TrimmedTexts

/-! The layout of a text. Reading trims every line, and what it keeps of a comment loses the blanks
at its end when the comment documents something. So neither the spaces and tabs around the lines nor
the carriage returns before their line feeds reach what is read. -/
namespace RubyIndex

def Padded (line other : List Char) : Prop :=
  ∃ core before after before' after' : List Char,
    (∀ c ∈ core, Text.isLineEnd c = false) ∧
      (∀ pad ∈ [before, after, before', after'], ∀ c ∈ pad, c = ' ' ∨ c = '\t') ∧
      line = before ++ core ++ after ∧ other = before' ++ core ++ after'

/-- The ends that a line may have instead of its own: the same, and for a line feed a carriage
return with the line feed. -/
inductive EndsAs : List Char → List Char → Prop
  | same (c : Char) (ends : Text.isLineEnd c = true) : EndsAs [c] [c]
  | returned : EndsAs ['\n'] ['\r', '\n']

inductive Relaid : List Char → List Char → Prop
  | last {line other : List Char} (padded : Padded line other) : Relaid line other
  | line {line other ending ending' rest rest' : List Char} (padded : Padded line other)
      (ended : EndsAs ending ending') (onward : Relaid rest rest') :
      Relaid (line ++ ending ++ rest) (other ++ ending' ++ rest')

namespace Text

variable {s before after : List Char}

theorem blankText_of_pad (pad : ∀ c ∈ s, c = ' ' ∨ c = '\t') : blankText s = true := by
  rw [blankText, List.all_eq_true]
  intro c hc
  rcases pad c hc with rfl | rfl <;> decide

theorem blankText_append : blankText (s ++ after) = (blankText s && blankText after) :=
  List.all_append

theorem trimRight_append_blank (blank : blankText after = true) (s : List Char) :
    trimRight (s ++ after) = trimRight s := by
  rw [trimRight, List.reverse_append, List.dropWhile_append_of_pos, trimRight]
  intro c hc
  exact List.all_eq_true.mp blank c (List.mem_reverse.mp hc)

/-- Blanks after a text stay if something in the text is none. -/
theorem trimLeft_append_of_visible (visible : ¬ blankText s = true) :
    trimLeft (s ++ after) = trimLeft s ++ after := by
  have written : trimLeft s ≠ [] := by
    intro none
    exact visible (trim_eq_nil_iff.mp (by rw [trim, none]; rfl))
  rw [trimLeft, List.dropWhile_append, if_neg (by rwa [List.isEmpty_iff]), trimLeft]

theorem trimLeft_of_blank (blank : blankText s = true) : trimLeft s = [] :=
  List.dropWhile_eq_nil_iff.mpr (List.all_eq_true.mp blank)

theorem trim_padded (blank : blankText before = true) (blank' : blankText after = true)
    (s : List Char) : trim (before ++ s ++ after) = trim s := by
  rw [trim, List.append_assoc, trimLeft_blank_append blank]
  by_cases visible : blankText s = true
  · rw [trimLeft_of_blank (by rw [blankText_append, visible, blank']; rfl),
      trim_eq_nil_iff.mpr visible]
    rfl
  · rw [trimLeft_append_of_visible visible, trimRight_append_blank blank', trim]

end Text

namespace Documentation

variable {s before after : List Char}

/-- What is left of a comment, but for the blanks at its end. -/
theorem trimRight_stripMarker_padded (blank : Text.blankText before = true)
    (blank' : Text.blankText after = true) (s : List Char) :
    Text.trimRight (stripMarker (before ++ s ++ after)) = Text.trimRight (stripMarker s) := by
  unfold stripMarker
  rw [List.append_assoc, Text.trimLeft_blank_append blank]
  by_cases visible : Text.blankText s = true
  · rw [Text.trimLeft_of_blank (by rw [Text.blankText_append, visible, blank']; rfl),
      Text.trimLeft_of_blank visible]
  · rw [Text.trimLeft_append_of_visible visible]
    cases marked : Text.trimLeft s with
    | nil => exact absurd (Text.trim_eq_nil_iff.mp (by rw [Text.trim, marked]; rfl)) visible
    | cons marker text =>
      rw [List.cons_append, List.drop_one, List.tail_cons, List.drop_one, List.tail_cons]
      cases text with
      | nil =>
        -- Only padding follows the marker, and it is trimmed with or without its first space.
        have none : Text.trimRight after = [] := Text.trimRight_eq_nil_iff.mpr blank'
        rw [List.nil_append]
        split
        · next rest =>
          have rest_blank : Text.blankText rest = true := by
            rw [Text.blankText, List.all_cons, Bool.and_eq_true] at blank'
            exact blank'.2
          exact Text.trimRight_eq_nil_iff.mpr rest_blank
        · exact none
      | cons c text =>
        by_cases space : c = ' '
        · subst space
          exact Text.trimRight_append_blank blank' text
        · rw [List.cons_append]
          split
          · next same => exact absurd (List.cons.inj same).1 space
          · split
            · next same => exact absurd (List.cons.inj same).1 space
            · rw [← List.cons_append]
              exact Text.trimRight_append_blank blank' (c :: text)

/-- Blanks at the end of comments do not reach what they document. -/
theorem join_congr {comments comments' : List (List Char)}
    (same : comments.map Text.trimRight = comments'.map Text.trimRight) :
    join comments = join comments' := by
  rw [join, join, same]

end Documentation

def Line.tidied : Line → Line
  | .comment text => .comment (Text.trimRight text)
  | l => l

namespace Padded

variable {line other : List Char}

theorem unbroken (h : Padded line other) :
    (∀ c ∈ line, Text.isLineEnd c = false) ∧ ∀ c ∈ other, Text.isLineEnd c = false := by
  obtain ⟨core, before, after, before', after', unbroken, pads, rfl, rfl⟩ := h
  have padding : ∀ pad ∈ [before, after, before', after'], ∀ c ∈ pad, Text.isLineEnd c = false := by
    intro pad hpad c hc
    rcases pads pad hpad c hc with rfl | rfl <;> decide
  simp only [List.forall_mem_cons] at padding
  obtain ⟨first, second, first', second', -⟩ := padding
  constructor <;> simp only [List.forall_mem_append]
  · exact ⟨⟨first, unbroken⟩, second⟩
  · exact ⟨⟨first', unbroken⟩, second'⟩

/-- Lines that differ in their padding alone are read alike, up to the end of a comment. -/
theorem tidied_read (h : Padded line other) (number : Nat) :
    (Line.read number line).tidied = (Line.read number other).tidied := by
  obtain ⟨core, before, after, before', after', -, pads, rfl, rfl⟩ := h
  have blanks : ∀ pad ∈ [before, after, before', after'], Text.blankText pad = true :=
    fun pad hpad => Text.blankText_of_pad (pads pad hpad)
  simp only [List.forall_mem_cons] at blanks
  obtain ⟨first, second, first', second', -⟩ := blanks
  have text := Documentation.trimRight_stripMarker_padded first second core
  have text' := Documentation.trimRight_stripMarker_padded first' second' core
  unfold Line.read
  rw [Text.trim_padded first second, Text.trim_padded first' second']
  split
  · rfl
  · split
    · rfl
    · rw [Line.tidied, Line.tidied, text, text']
  · rfl

end Padded

namespace Reading

variable {r r' : Reading} {line other : List Char} {number : Nat}

def tidied (r : Reading) : Reading := { r with comments := r.comments.map Text.trimRight }

/-- Readings that agree so far do so after lines that are read alike. -/
theorem tidied_step (h : r.tidied = r'.tidied)
    (same : (Line.read number line).tidied = (Line.read number other).tidied) :
    (r.step (line, number)).map tidied = (r'.step (other, number)).map tidied := by
  obtain ⟨path, namespaces, scopes, outermost, globals, diagnostics, comments⟩ := r
  obtain ⟨path', namespaces', scopes', outermost', globals', diagnostics', comments'⟩ := r'
  simp only [tidied, mk.injEq] at h
  obtain ⟨rfl, rfl, rfl, rfl, rfl, rfl, waiting⟩ := h
  unfold step
  cases first : Line.read number line <;> cases second : Line.read number other <;>
    simp only [first, second, Line.tidied, reduceCtorEq, Line.comment.injEq,
      Line.code.injEq] at same
  case blank.blank => rfl
  case magic.magic =>
    simp only [Except.map, tidied, waiting]
  case comment.comment =>
    simp only [Except.map, tidied, List.map_append, List.map_cons, List.map_nil, waiting, same]
  case code.code =>
    rw [same, Documentation.join_congr waiting]

theorem finish_congr (h : r.tidied = r'.tidied) : r.finish = r'.finish := by
  have scopes : r.scopes = r'.scopes := congrArg (·.scopes) h
  have path : r.path = r'.path := congrArg (·.path) h
  have namespaces : r.namespaces = r'.namespaces := congrArg (·.namespaces) h
  have globals : r.globals = r'.globals := congrArg (·.globals) h
  have diagnostics : r.diagnostics = r'.diagnostics := congrArg (·.diagnostics) h
  rw [finish, finish, scopes, path, namespaces, globals, diagnostics]

def readOn (r : Reading) (number : Nat) (lines : List (List Char)) : Except ParseError StubFile :=
  (lines.zipIdx number).foldlM step r >>= finish

theorem readOn_cons (r : Reading) (number : Nat) (line : List Char) (lines : List (List Char)) :
    r.readOn number (line :: lines) = r.step (line, number) >>= (·.readOn (number + 1) lines) := by
  rw [readOn, List.zipIdx_cons, List.foldlM_cons]
  cases r.step (line, number) <;> rfl

/-- Two readings that agree go on to the same file if they do so after a line of each. -/
theorem readOn_congr {lines lines' : List (List Char)} (h : r.tidied = r'.tidied)
    (padded : Padded line other)
    (onward : ∀ q q' : Reading, q.tidied = q'.tidied →
      q.readOn (number + 1) lines = q'.readOn (number + 1) lines') :
    r.readOn number (line :: lines) = r'.readOn number (other :: lines') := by
  rw [readOn_cons, readOn_cons]
  rcases alike_of_map_eq (tidied_step h (padded.tidied_read number)) with
    ⟨e, failed, failed'⟩ | ⟨q, q', read, read', agree⟩
  · rw [failed, failed']
    rfl
  · rw [read, read']
    exact onward q q' agree

/-- An empty line at the end of a text is none, and would not change anything. -/
theorem readOn_unbroken (unbroken : ∀ c ∈ line, Text.isLineEnd c = false) (r : Reading)
    (number : Nat) : r.readOn number (Text.lines line) = r.readOn number [line] := by
  rw [Text.lines_unbroken unbroken]
  by_cases empty : line = []
  · subst empty
    rw [if_pos rfl, readOn_cons]
    rfl
  · rw [if_neg empty]

theorem readOn_relaid {s s' : List Char} (relaid : Relaid s s') (plain : '\r' ∉ s)
    (h : r.tidied = r'.tidied) :
    r.readOn number (Text.lines s) = r'.readOn number (Text.lines s') := by
  induction relaid generalizing r r' number with
  | last padded =>
    rw [readOn_unbroken padded.unbroken.1, readOn_unbroken padded.unbroken.2]
    exact readOn_congr h padded fun q q' agree => finish_congr agree
  | line padded ended _ ih =>
    simp only [List.mem_append, not_or] at plain
    obtain ⟨⟨-, ending⟩, rest⟩ := plain
    obtain ⟨first, second⟩ := padded.unbroken
    cases ended with
    | same c ends =>
      have single : Text.LineEnd [c] := .single c ends (by rintro rfl; simp at ending)
      rw [Text.lines_end first single, Text.lines_end second single]
      exact readOn_congr h padded fun q q' agree => ih rest agree
    | returned =>
      rw [Text.lines_end first (.single '\n' rfl (by decide)), Text.lines_end second .returned]
      exact readOn_congr h padded fun q q' agree => ih rest agree

end Reading

/-- The layout of a text does not matter. Spaces and tabs may stand at either end of each line or
not, and a line may end in a carriage return and a line feed where it ends in a line feed: the text
is read as the same file, or refused for the same reason on the same line. -/
theorem StubFile.layout_immaterial {text other : String} (plain : '\r' ∉ text.toList)
    (relaid : Relaid text.toList other.toList) (path : String) :
    StubFile.parse text path = StubFile.parse other path :=
  Reading.readOn_relaid relaid plain rfl

def evenText : String := "class Crate\n# Puts it in.\ndef put; end\nend"

def unevenText : String := "  class Crate \r\n\t# Puts it in.\t\r\ndef put; end \n\t end"

theorem StubFile.crate_laid_out_either_way :
    '\r' ∉ evenText.toList ∧ Relaid evenText.toList unevenText.toList ∧
      (StubFile.parse evenText "crate.rb").toOption.isSome = true ∧
      StubFile.parse evenText "crate.rb" = StubFile.parse unevenText "crate.rb" := by
  have plain : '\r' ∉ evenText.toList := by decide
  have opened : Padded "class Crate".toList "  class Crate ".toList :=
    ⟨"class Crate".toList, [], [], [' ', ' '], [' '], by simp [Text.isLineEnd], by simp, rfl, rfl⟩
  have comment : Padded "# Puts it in.".toList "\t# Puts it in.\t".toList :=
    ⟨"# Puts it in.".toList, [], [], ['\t'], ['\t'], by simp [Text.isLineEnd], by simp, rfl, rfl⟩
  have defined : Padded "def put; end".toList "def put; end ".toList :=
    ⟨"def put; end".toList, [], [], [], [' '], by simp [Text.isLineEnd], by simp, rfl, rfl⟩
  have closed : Padded "end".toList "\t end".toList :=
    ⟨"end".toList, [], [], ['\t', ' '], [], by simp [Text.isLineEnd], by simp, rfl, rfl⟩
  have relaid : Relaid evenText.toList unevenText.toList :=
    .line opened .returned
      (.line comment .returned (.line defined (.same '\n' (by decide)) (.last closed)))
  exact ⟨plain, relaid, by decide, layout_immaterial plain relaid "crate.rb"⟩

end RubyIndex
