import RubyIndex.Proofs.DirectoryNames
import RubyIndex.Proofs.FileOutlines
import RubyIndex.Proofs.HeaderNames
import RubyIndex.Proofs.TextLines

/-! Statements that mix modules in. A statement with several modules does what statements with one
module each do in the order in which it lists them. -/
namespace RubyIndex

def MixinKind.word : MixinKind → String
  | .incl => "include"
  | .ext => "extend"
  | .prep => "prepend"

def MixinKind.statement (kind : MixinKind) (names : List String) : String :=
  kind.word ++ " " ++ ", ".intercalate names

/-- The name of a module as it may be listed: a path that begins with a capital, with or without a
leading `::`. -/
structure IsModuleName (name : String) : Prop where
  capital : Capitalized (dropRoot name)
  unbroken : ∀ c ∈ name.toList, Text.isBlank c = false ∧ c ≠ ','

namespace IsModuleName

variable {name : String}

theorem ne_nil (h : IsModuleName name) : name.toList ≠ [] := by
  intro none
  obtain rfl : name = "" := String.toList_eq_nil_iff.mp none
  obtain ⟨c, rest, eq, -⟩ := h.capital
  cases eq

theorem ne_self (h : IsModuleName name) : name ≠ "self" := by
  rintro rfl
  obtain ⟨c, rest, eq, capital⟩ := h.capital
  cases eq
  cases capital

theorem trim_eq (h : IsModuleName name) : Text.trim name.toList = name.toList :=
  Text.trim_eq_self (fun c hc => (h.unbroken c (List.mem_of_mem_head? hc)).1)
    fun c hc => (h.unbroken c (List.mem_of_mem_getLast? hc)).1

end IsModuleName

namespace Statement

variable {kind : MixinKind} {names : List String} {raw : List Char}

/-- All pieces between commas but the first begin with a blank. -/
theorem intercalate_spaced (l : List Char) (ls : List (List Char)) :
    [',', ' '].intercalate (l :: ls) = [','].intercalate (l :: ls.map (' ' :: ·)) := by
  have indented (l : List Char) (ls : List (List Char)) :
      [','].intercalate ((' ' :: l) :: ls) = ' ' :: [','].intercalate (l :: ls) := by
    cases ls with
    | nil => simp
    | cons m ls => simp [List.intercalate_cons_cons]
  induction ls generalizing l with
  | nil => simp
  | cons m ls ih =>
    rw [List.map_cons, List.intercalate_cons_cons, List.intercalate_cons_cons, ih m, indented]
    simp

theorem toList_commas (names : List String) :
    (", ".intercalate names).toList = [',', ' '].intercalate (names.map String.toList) :=
  String.toList_intercalate

/-- What is listed between commas is read as it is. -/
theorem mixinNames_commas (listed : names ≠ []) (modules : ∀ name ∈ names, IsModuleName name) :
    mixinNames (", ".intercalate names).toList = names := by
  obtain ⟨first, rest, rfl⟩ := List.exists_cons_of_ne_nil listed
  obtain ⟨leading, others⟩ := List.forall_mem_cons.mp modules
  have noComma {name : String} (h : IsModuleName name) : ',' ∉ name.toList := fun comma =>
    (h.unbroken ',' comma).2 rfl
  have split : (", ".intercalate (first :: rest)).toList.splitOn ',' =
      first.toList :: (rest.map String.toList).map (' ' :: ·) := by
    rw [toList_commas, List.map_cons, intercalate_spaced,
      List.splitOn_intercalate ',' _ (List.cons_ne_nil _ _)]
    refine List.forall_mem_cons.mpr ⟨noComma leading, ?_⟩
    simpa using fun name hname => noComma (others name hname)
  have trimmed : (first.toList :: (rest.map String.toList).map (' ' :: ·)).map Text.trim =
      (first :: rest).map String.toList := by
    rw [List.map_cons, leading.trim_eq, List.map_map, List.map_map, List.map_cons]
    exact congrArg _ (List.map_congr_left fun name hname => (others name hname).trim_eq)
  have kept : ((first :: rest).map String.toList).filter (!·.isEmpty) =
      (first :: rest).map String.toList := by
    rw [List.filter_eq_self, List.forall_mem_map]
    exact fun name hname => by simpa using (modules name hname).ne_nil
  rw [mixinNames, split, trimmed, kept, List.map_map]
  simp [Function.comp_def]

theorem commas_eq_cons (listed : names ≠ []) (modules : ∀ name ∈ names, IsModuleName name) :
    ∃ c more, (", ".intercalate names).toList = c :: more ∧ Text.isBlank c = false := by
  obtain ⟨first, rest, rfl⟩ := List.exists_cons_of_ne_nil listed
  have leading := modules first List.mem_cons_self
  obtain ⟨c, more, eq⟩ := List.exists_cons_of_ne_nil leading.ne_nil
  have plain := (leading.unbroken c (by simp [eq])).1
  rw [toList_commas, List.map_cons, eq]
  cases rest with
  | nil => exact ⟨c, more, by simp, plain⟩
  | cons second rest => exact ⟨c, _, by simp [List.intercalate_cons_cons]; rfl, plain⟩

theorem getLast?_commas (modules : ∀ name ∈ names, IsModuleName name) :
    ∀ c ∈ (", ".intercalate names).toList.getLast?, Text.isBlank c = false := by
  induction names with
  | nil => simp
  | cons first rest ih =>
    obtain ⟨leading, others⟩ := List.forall_mem_cons.mp modules
    cases rest with
    | nil =>
      simpa using fun c hc => (leading.unbroken c (List.mem_of_mem_getLast? hc)).1
    | cons second rest =>
      obtain ⟨c, more, eq, -⟩ := commas_eq_cons (List.cons_ne_nil second rest) others
      rw [String.intercalate_cons_cons, String.toList_append,
        List.getLast?_append_of_ne_nil _ (by simp [eq])]
      exact ih others

theorem toList_statement (kind : MixinKind) (names : List String) :
    (kind.statement names).toList =
      kind.word.toList ++ ' ' :: (", ".intercalate names).toList := by
  simp [MixinKind.statement]

theorem trim_statement (kind : MixinKind) (listed : names ≠ [])
    (modules : ∀ name ∈ names, IsModuleName name) :
    Text.trim (kind.statement names).toList = (kind.statement names).toList := by
  obtain ⟨c, more, eq, -⟩ := commas_eq_cons listed modules
  have last := getLast?_commas modules
  rw [eq] at last
  rw [toList_statement, eq]
  refine Text.trim_eq_self ?_ ?_
  · cases kind <;> simp [MixinKind.word] <;> decide
  · rwa [List.getLast?_append_of_ne_nil _ (List.cons_ne_nil _ _), List.getLast?_cons_cons]

theorem read_mixin (kind : MixinKind) (rest : List Char) :
    Statement.read (kind.word.toList ++ ' ' :: rest) =
      .mixin kind (mixinNames (Text.trimLeft rest)) := by
  cases kind <;> rfl

/-- A line with such a statement mixes in the modules that it lists. -/
theorem ofLine?_mixin (listed : names ≠ []) (modules : ∀ name ∈ names, IsModuleName name)
    (written : Text.trim raw = (kind.statement names).toList) :
    Statement.ofLine? raw = some (.mixin kind names) := by
  have code : Statement.ofLine? raw = some (Statement.read (kind.statement names).toList) := by
    rw [ofLine?, written, toList_statement]
    cases kind <;> rfl
  obtain ⟨c, more, eq, plain⟩ := commas_eq_cons listed modules
  have unindented : Text.trimLeft (c :: more) = c :: more :=
    List.dropWhile_cons_of_neg (by simp [plain])
  rw [code, toList_statement, read_mixin, eq, unindented, ← eq, mixinNames_commas listed modules]

end Statement

theorem Scope.mix_append (s : Scope) (kind : MixinKind) (names more : List String)
    (n : Namespace) : s.mix kind more (s.mix kind names n) = s.mix kind (names ++ more) n := by
  unfold mix
  cases kind <;> cases s.receiver <;> simp

namespace Reading

theorem edit_edit (r : Reading) (s : Scope) (first second : Namespace → Namespace) :
    (r.edit s first).edit s second = r.edit s (second ∘ first) := by
  simp only [edit, List.modify_modify_eq]

/-- One statement for each module does what one statement with all of them does. -/
theorem sketch_mixins (r : Reading) (kind : MixinKind) {names : List String}
    (listed : names ≠ []) :
    (names.map fun name => Statement.mixin kind [name]).foldlM sketch? r =
      r.sketch? (.mixin kind names) := by
  induction names generalizing r with
  | nil => exact absurd rfl listed
  | cons first rest ih =>
    rw [List.map_cons, List.foldlM_cons, sketch_mixin]
    cases rest with
    | nil => rfl
    | cons second rest =>
      refine (ih _ (List.cons_ne_nil second rest)).trans ?_
      rw [sketch_mixin, current_edit, edit_edit, sketch_mixin]
      refine congrArg (fun change => some (r.current.2.edit r.current.1 change)) ?_
      exact funext (r.current.1.mix_append kind [first] (second :: rest))

end Reading

/-- Two texts that are the same but for one line. The line is a statement with some modules, and the
other text has a statement for each of some modules in its place. -/
def MixinsApart (kind : MixinKind) (together apart : List String) (text other : String) : Prop :=
  ∃ before line lines after,
    Text.lines text.toList = before ++ line :: after ∧
      Text.lines other.toList = before ++ lines ++ after ∧
      Text.trim line = (kind.statement together).toList ∧
      List.Forall₂ (fun line name => Text.trim line = (kind.statement [name]).toList) lines apart

/-- Texts that mix in the same modules in the same order, in one statement or in several, are read
alike. -/
theorem StubFile.map_outline_parse_mixinsApart {kind : MixinKind} {names : List String}
    {text other : String} (listed : names ≠ []) (modules : ∀ name ∈ names, IsModuleName name)
    (apart : MixinsApart kind names names text other) (path : String) :
    (StubFile.parse text path).toOption.map StubFile.outline =
      (StubFile.parse other path).toOption.map StubFile.outline := by
  obtain ⟨before, line, lines, after, text_eq, other_eq, together, each⟩ := apart
  have statements : lines.filterMap Statement.ofLine? =
      names.map fun name => Statement.mixin kind [name] := by
    clear together listed other_eq
    induction each with
    | nil => rfl
    | @cons line name lines names written _ ih =>
      obtain ⟨first, others⟩ := List.forall_mem_cons.mp modules
      rw [List.filterMap_cons_some (Statement.ofLine?_mixin (List.cons_ne_nil name [])
        (List.forall_mem_singleton.mpr first) written), ih others, List.map_cons]
  have sketched (r : Reading) : (lines.filterMap Statement.ofLine?).foldlM Reading.sketch? r =
      r.sketch? (.mixin kind names) := by
    rw [statements, r.sketch_mixins kind listed]
  rw [map_outline_parse, map_outline_parse, Statement.ofText, Statement.ofText, text_eq, other_eq,
    List.filterMap_append, List.filterMap_append, List.filterMap_append,
    List.filterMap_cons_some (Statement.ofLine?_mixin listed modules together)]
  simp only [List.foldlM_append, List.foldlM_cons, sketched]
  simp [Option.bind_assoc]

end RubyIndex
