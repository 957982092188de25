import Mathlib.Data.List.DropRight
import RubyIndex.Proofs.BlockTree
import RubyIndex.Proofs.OpaqueDocumentation
import RubyIndex.Proofs.TrimmedTexts

/-! Runs of comments. The comments that wait for a declaration are those of the lines directly above
it that are comments all of them, without the magic ones. -/
namespace RubyIndex

variable {raw source : List Char} {number : Nat} {text : String}

/-- A line is a comment exactly if its trimmed text begins one. -/
theorem head?_trim_eq_iff : (Text.trim raw).head? = some '#' ↔ IsComment raw := by
  have first : (Text.trim raw).head? = raw.find? (!Text.isBlank ·) := by
    rw [Text.trim, Text.head?_trimRight (Text.head?_trimLeft raw), Text.trimLeft,
      List.find?_eq_head?_dropWhile_not]
    simp
  rw [first, IsComment]

/-- What is read of a line: nothing, a magic comment, another comment or a statement. -/
theorem read_cases (number : Nat) (raw : List Char) :
    match Line.read number raw with
    | .blank => ¬IsComment raw
    | .magic => IsComment raw ∧ number ≤ 2 ∧ Documentation.isMagic (Text.trim raw) = true
    | .comment text => IsComment raw ∧
        ¬(number ≤ 2 ∧ Documentation.isMagic (Text.trim raw) = true) ∧
        text = Documentation.stripMarker raw
    | .code _ => ¬IsComment raw := by
  simp only [← head?_trim_eq_iff]
  unfold Line.read
  cases source : Text.trim raw with
  | nil => simp
  | cons c rest =>
    by_cases comment : c = '#'
    · subst comment
      by_cases magic : number ≤ 2 ∧ Documentation.isMagic ('#' :: rest) = true
      · simp [magic]
      · simp [magic]
    · simp [comment]

namespace Documentation

def IsMagicLine (l : List Char × Nat) : Prop := l.2 ≤ 2 ∧ isMagic (Text.trim l.1) = true

instance (l : List Char × Nat) : Decidable (IsMagicLine l) := inferInstanceAs (Decidable (_ ∧ _))

/-- The longest run of comments at the end of some lines. -/
def lastRun (lines : List (List Char × Nat)) : List (List Char × Nat) :=
  lines.rtakeWhile fun l => IsComment l.1

def lastComments (lines : List (List Char × Nat)) : List (List Char) :=
  ((lastRun lines).filter fun l => ¬IsMagicLine l).map fun l => stripMarker l.1

variable {lines before : List (List Char × Nat)} {l : List Char × Nat}

theorem lastComments_other (other : ¬IsComment l.1) : lastComments (lines ++ [l]) = [] := by
  have none : lastRun (lines ++ [l]) = [] :=
    List.rtakeWhile_concat_neg _ _ _ (by simpa using other)
  rw [lastComments, none]
  rfl

theorem lastRun_comment (comment : IsComment l.1) : lastRun (lines ++ [l]) = lastRun lines ++ [l] :=
  List.rtakeWhile_concat_pos _ _ _ (by simpa using comment)

theorem lastComments_magic (comment : IsComment l.1) (magic : IsMagicLine l) :
    lastComments (lines ++ [l]) = lastComments lines := by
  have dropped : [l].filter (fun l => ¬IsMagicLine l) = [] := by simp [magic]
  rw [lastComments, lastRun_comment comment, List.filter_append, dropped, List.append_nil,
    lastComments]

theorem lastComments_comment (comment : IsComment l.1) (plain : ¬IsMagicLine l) :
    lastComments (lines ++ [l]) = lastComments lines ++ [stripMarker l.1] := by
  have kept : [l].filter (fun l => ¬IsMagicLine l) = [l] := by simp [plain]
  rw [lastComments, lastRun_comment comment, List.filter_append, kept, List.map_append,
    lastComments]
  rfl

/-- A statement of numbered lines stands on one of them, and its documentation is what the comments
of the last run before it make. -/
def StandsBelow (lines : List (List Char × Nat)) (l : Located) : Prop :=
  ∃ before raw source after, lines = before ++ (raw, l.line) :: after ∧
    Line.read l.line raw = .code source ∧ l.documentation = join (lastComments before)

/-- The comments that wait for a declaration are those of the last run. -/
theorem located_lastComments {l : Located} (h : l ∈ located (lastComments before) lines) :
    StandsBelow (before ++ lines) l := by
  induction lines generalizing before with
  | nil => cases h
  | cons numbered lines ih =>
    obtain ⟨raw, number⟩ := numbered
    have onward {comments : List (List Char)} (h : l ∈ located comments lines)
        (same : comments = lastComments (before ++ [(raw, number)])) :
        StandsBelow (before ++ (raw, number) :: lines) l := by
      rw [List.append_cons]
      exact ih (same ▸ h)
    have form := read_cases number raw
    rw [located] at h
    cases read : Line.read number raw with
    | blank =>
      simp only [read] at form h
      exact onward h (lastComments_other form).symm
    | magic =>
      simp only [read] at form h
      exact onward h (lastComments_magic (l := (raw, number)) form.1 form.2).symm
    | comment text =>
      simp only [read] at form h
      obtain ⟨comment, plain, rfl⟩ := form
      exact onward h (lastComments_comment (l := (raw, number)) comment plain).symm
    | code source =>
      simp only [read] at form h
      rcases List.mem_cons.mp h with rfl | h
      · exact ⟨before, raw, source, lines, rfl, read, rfl⟩
      · exact onward h (lastComments_other form).symm

def linesAbove (text : String) (line : Nat) : List (List Char × Nat) :=
  ((Text.lines text.toList).zipIdx 1).take (line - 1)

def above (text : String) (line : Nat) : Option String := join (lastComments (linesAbove text line))

def IsCode (text : String) (line : Nat) : Prop :=
  ∃ raw source, (raw, line) ∈ (Text.lines text.toList).zipIdx 1 ∧ Line.read line raw = .code source

theorem number_of_getElem? {ls : List (List Char)} {raw : List Char} {i k : Nat}
    (h : (ls.zipIdx 1)[i]? = some (raw, k)) : k = 1 + i := by
  rw [List.getElem?_zipIdx] at h
  obtain ⟨raw', -, same⟩ := Option.map_eq_some_iff.mp h
  exact (congrArg Prod.snd same).symm

theorem linesAbove_eq {raw : List Char} {line : Nat} {before after : List (List Char × Nat)}
    (eq : (Text.lines text.toList).zipIdx 1 = before ++ (raw, line) :: after) :
    linesAbove text line = before := by
  have place : ((Text.lines text.toList).zipIdx 1)[before.length]? = some (raw, line) := by
    rw [eq]
    simp
  have number := number_of_getElem? place
  rw [linesAbove, eq, number, Nat.add_sub_cancel_left, List.take_left]

/-- A statement is documented by the comments directly above its line. -/
theorem documentation_of_mem_statementsOf {l : Located} (h : l ∈ statementsOf text) :
    l.documentation = above text l.line ∧ IsCode text l.line := by
  have h : l ∈ located (lastComments []) ((Text.lines text.toList).zipIdx 1) := h
  obtain ⟨before, raw, source, after, eq, read, documentation⟩ := located_lastComments h
  rw [List.nil_append] at eq
  refine ⟨by rw [documentation, above, linesAbove_eq eq], raw, source, ?_, read⟩
  rw [eq]
  exact List.mem_append_right before List.mem_cons_self

/-- All lines from one of the last run on are comments, up to the line below the run. -/
theorem isComment_of_mem_lastRun {k line : Nat} {raw : List Char}
    (h : (raw, k) ∈ lastRun (linesAbove text line)) :
    k < line ∧ ∀ raw' i, (raw', i) ∈ (Text.lines text.toList).zipIdx 1 → k ≤ i → i < line →
      IsComment raw' := by
  have comments : ∀ l ∈ lastRun (linesAbove text line), IsComment l.1 := fun l hl => by
    simpa using List.mem_rtakeWhile_imp hl
  obtain ⟨before, cut⟩ : lastRun (linesAbove text line) <:+ linesAbove text line :=
    List.rtakeWhile_suffix _ _
  have bounded : (linesAbove text line).length ≤ line - 1 := List.length_take_le _ _
  obtain ⟨j, found⟩ := List.mem_iff_getElem?.mp h
  have behind : (linesAbove text line)[before.length + j]? = some (raw, k) := by
    rw [← cut, List.getElem?_append_right (Nat.le_add_right _ _), Nat.add_sub_cancel_left, found]
  have short : before.length + j < (linesAbove text line).length :=
    (List.getElem?_eq_some_iff.mp behind).1
  have number : k = 1 + (before.length + j) := by
    rw [linesAbove, List.getElem?_take_of_lt (by omega)] at behind
    exact number_of_getElem? behind
  refine ⟨by omega, fun raw' i listed from_ upto => ?_⟩
  obtain ⟨m, place⟩ := List.mem_iff_getElem?.mp listed
  have number' := number_of_getElem? place
  have above : (linesAbove text line)[m]? = some (raw', i) := by
    rw [linesAbove, List.getElem?_take_of_lt (by omega), place]
  rw [← cut, List.getElem?_append_right (by omega)] at above
  exact comments _ (List.mem_of_getElem? above)

/-- What trims to line feeds alone is blank, as it would end without a blank. -/
theorem trimRight_lineFeeds_iff {s : List Char} :
    (∀ c ∈ Text.trimRight s, c = '\n') ↔ Text.blankText s = true := by
  rw [Text.trimRight, Text.blankText, List.all_eq_true]
  constructor
  · intro feeds c hc
    cases rest : s.reverse.dropWhile Text.isBlank with
    | nil => exact List.dropWhile_eq_nil_iff.mp rest c (List.mem_reverse.mpr hc)
    | cons d more =>
      have plain := Text.head?_trimLeft s.reverse d (by rw [Text.trimLeft, rest]; rfl)
      obtain rfl := feeds d (by rw [rest]; simp)
      cases plain
  · intro blank c hc
    have none : s.reverse.dropWhile Text.isBlank = [] :=
      List.dropWhile_eq_nil_iff.mpr fun c hc => blank c (List.mem_reverse.mp hc)
    rw [none] at hc
    cases hc

theorem trimSet_eq_nil_iff {set : Char → Bool} {s : List Char} :
    Text.trimSet set s = [] ↔ ∀ c ∈ s, set c = true := by
  have within : s.takeWhile set ++ s.dropWhile set = s := List.takeWhile_append_dropWhile
  rw [Text.trimSet, List.reverse_eq_nil_iff, List.dropWhile_eq_nil_iff]
  constructor
  · intro h
    rw [← within]
    exact List.forall_mem_append.mpr
      ⟨fun c hc => List.mem_takeWhile_imp hc, fun c hc => h c (List.mem_reverse.mpr hc)⟩
  · intro h c hc
    exact h c (within ▸ List.mem_append_right _ (List.mem_reverse.mp hc))

theorem forall_mem_intercalate {P : Char → Prop} {sep : List Char} (between : ∀ c ∈ sep, P c)
    (parts : List (List Char)) :
    (∀ c ∈ sep.intercalate parts, P c) ↔ ∀ part ∈ parts, ∀ c ∈ part, P c := by
  induction parts with
  | nil => simp
  | cons part parts ih =>
    cases parts with
    | nil => simp
    | cons next parts =>
      rw [List.intercalate_cons_cons, List.forall_mem_append, List.forall_mem_append, ih]
      exact (and_congr_left fun _ => and_iff_left between).trans
        (List.forall_mem_cons (p := fun part => ∀ c ∈ part, P c)).symm

/-- Comments document nothing exactly if all of them are blank. -/
theorem join_eq_none_iff {comments : List (List Char)} :
    join comments = none ↔ ∀ c ∈ comments, Text.blankText c = true := by
  have joined : join comments = none ↔
      Text.trimSet (· == '\n') (['\n'].intercalate (comments.map Text.trimRight)) = [] := by
    simp [join]
  simp only [joined, trimSet_eq_nil_iff, beq_iff_eq]
  rw [forall_mem_intercalate (by simp), List.forall_mem_map]
  exact forall₂_congr fun c _ => trimRight_lineFeeds_iff

end Documentation

end RubyIndex
