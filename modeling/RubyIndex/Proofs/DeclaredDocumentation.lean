import RubyIndex.Proofs.CommentRuns
import RubyIndex.Proofs.StatementLines

/-! The documentation of what a file declares. A declaration is documented by the comments directly
above its line, and a comment documents what is declared on one line only. -/
namespace RubyIndex

/-- A property of a line and of the documentation of what is declared on it. -/
abbrev LineProperty := Nat → Option String → Prop

variable {P : LineProperty}

/-- Whether a property holds of everything that a namespace declares, itself included. -/
structure Namespace.Declared (P : LineProperty) (n : Namespace) : Prop where
  opened : n.implicit = false → P n.line n.documentation
  methods : ∀ m ∈ n.methods, P m.line m.documentation
  constants : ∀ c ∈ n.constants, P c.line c.documentation

theorem Namespace.Declared.mix {n : Namespace} (h : n.Declared P) (s : Scope) (kind : MixinKind)
    (names : List String) : (s.mix kind names n).Declared P := by
  unfold Scope.mix
  split <;> exact ⟨h.opened, h.methods, h.constants⟩

/-- Neither visibility nor receiver has to do with the documentation of a method. -/
theorem Method.steady_documentation (P : LineProperty) :
    Method.Steady fun m => P m.line m.documentation := fun _ _ _ h => h

/-- Recording aliases documents nothing. -/
theorem Namespace.Declared.recorded {n : Namespace} (h : n.Declared P) :
    ({ n with methods := applyAliases n.methods n.aliases } : Namespace).Declared P := by
  refine ⟨h.opened, ?_, h.constants⟩
  intro m hm
  have declared := List.mem_map_of_mem (f := Method.declared) hm
  rw [map_declared_applyAliases] at declared
  obtain ⟨m', hm', same⟩ := List.mem_map.mp declared
  have line : m'.line = m.line := congrArg (·.line) same
  have documentation : m'.documentation = m.documentation := congrArg (·.documentation) same
  rw [← line, ← documentation]
  exact h.methods m' hm'

namespace Reading

variable {r r' : Reading} {l : Located}

structure Declared (P : LineProperty) (r : Reading) : Prop where
  namespaces : ∀ n ∈ r.namespaces, n.Declared P
  globals : ∀ g ∈ r.globals, P g.line g.documentation

theorem declared_empty (path : String) : Declared P { path := path } := by
  constructor <;> simp

theorem declared_current (h : r.Declared P) : r.current.2.Declared P := by
  unfold current
  split
  · exact h
  · exact h
  · refine ⟨List.forall_mem_append.mpr ⟨h.namespaces, ?_⟩, h.globals⟩
    exact List.forall_mem_singleton.mpr ⟨by simp, by simp, by simp⟩

theorem Declared.edit (h : r.Declared P) (s : Scope) {change : Namespace → Namespace}
    (keeps : ∀ n : Namespace, n.Declared P → (change n).Declared P) :
    (r.edit s change).Declared P :=
  ⟨forall_mem_edit h.namespaces s keeps, h.globals⟩

theorem declared_pop (h : r.Declared P) (popped : r.pop? = some r') : r'.Declared P := by
  unfold pop? at popped
  split at popped
  · cases popped
  · cases popped
    exact ⟨h.namespaces, h.globals⟩

theorem declared_setCurrent (h : r.Declared P) (s : Scope) : (r.setCurrent s).Declared P := by
  unfold setCurrent
  split <;> exact ⟨h.namespaces, h.globals⟩

theorem declared_addGlobal (h : r.Declared P) {g : GlobalVariable}
    (here : P g.line g.documentation) : (r.addGlobal g).Declared P :=
  ⟨h.namespaces, List.forall_mem_append.mpr ⟨h.globals, List.forall_mem_singleton.mpr here⟩⟩

variable {line : Nat} {documentation : Option String}

theorem declared_openNamespace (h : r.Declared P) (here : P line documentation) (header : Header) :
    (r.openNamespace header line documentation).Declared P := by
  rw [openNamespace_eq]
  refine ⟨List.forall_mem_append.mpr ⟨h.namespaces, List.forall_mem_singleton.mpr ?_⟩, h.globals⟩
  exact ⟨fun _ => here, List.forall_mem_nil _, List.forall_mem_nil _⟩

theorem declared_define {visibility : Option Visibility} {source : String} (h : r.Declared P)
    (here : P line documentation)
    (defined : r.define visibility source line documentation = .ok r') : r'.Declared P := by
  unfold define at defined
  split at defined
  · cases defined
  · split at defined
    · cases defined
    · cases defined
      refine (declared_current h).edit _ fun n declared => ⟨declared.opened, ?_, declared.constants⟩
      exact List.forall_mem_append.mpr
        ⟨declared.methods, (Method.steady_documentation P).place _ here⟩

/-- What a statement declares is on its line, with the documentation of the statement. -/
theorem declared_act (h : r.Declared P) (here : P l.line l.documentation)
    (act : r.act? l = some r') : r'.Declared P := by
  have current := declared_current h
  have steady := Method.steady_documentation P
  unfold act? at act
  cases hs : l.statement with
  | close =>
    rw [hs, apply, toOption_close] at act
    exact declared_pop h act
  | openSingleton =>
    rw [hs] at act
    cases act
    exact ⟨current.namespaces, current.globals⟩
  | openNamespace header =>
    have opened := declared_openNamespace h here header
    rw [hs, apply] at act
    split at act
    · rw [toOption_close] at act
      exact declared_pop opened act
    · cases act
      exact opened
  | define visibility source =>
    rw [hs] at act
    exact declared_define h here (toOption_eq_some_iff.mp act)
  | setDefault visibility | beginModuleFunctions =>
    rw [hs] at act
    cases act
    exact declared_setCurrent current _
  | setVisibility visibility names =>
    rw [hs] at act
    cases act
    exact current.edit _ fun n declared =>
      ⟨declared.opened, steady.publish _ visibility names declared.methods, declared.constants⟩
  | makeModuleFunctions names =>
    rw [hs] at act
    cases act
    exact current.edit _ fun n declared =>
      ⟨declared.opened, steady.makeModuleFunctions names declared.methods, declared.constants⟩
  | mixin kind names =>
    rw [hs] at act
    cases act
    exact current.edit _ fun n declared => declared.mix _ kind names
  | assignConstant name value =>
    rw [hs] at act
    cases act
    exact current.edit _ fun n declared => ⟨declared.opened, declared.methods,
      List.forall_mem_append.mpr ⟨declared.constants, List.forall_mem_singleton.mpr here⟩⟩
  | aliasGlobal newName oldName | assignGlobal name value =>
    rw [hs] at act
    cases act
    exact declared_addGlobal h here
  | unrecognized source =>
    rw [hs] at act
    cases act
    exact ⟨h.namespaces, h.globals⟩
  | _ =>
    rw [hs] at act
    cases act
    exact current.edit _ fun n declared => ⟨declared.opened, declared.methods, declared.constants⟩

theorem declared_run {ls : List Located} (h : r.Declared P)
    (here : ∀ l ∈ ls, P l.line l.documentation) (run : r.run? ls = some r') : r'.Declared P := by
  induction ls generalizing r with
  | nil =>
    cases run
    exact h
  | cons l ls ih =>
    obtain ⟨r₁, act, run⟩ := Option.bind_eq_some_iff.mp (show (r.act? l).bind _ = some r' from run)
    rw [List.forall_mem_cons] at here
    exact ih (declared_act h here.1 act) here.2 run

end Reading

namespace StubFile

variable {f : StubFile} {text path : String}

inductive Declares (f : StubFile) : LineProperty
  | opened {n : Namespace} (hn : n ∈ f.namespaces) (explicit : n.implicit = false) :
      Declares f n.line n.documentation
  | method {n : Namespace} {m : Method} (hn : n ∈ f.namespaces) (hm : m ∈ n.methods) :
      Declares f m.line m.documentation
  | constant {n : Namespace} {c : Constant} (hn : n ∈ f.namespaces) (hc : c ∈ n.constants) :
      Declares f c.line c.documentation
  | global {g : GlobalVariable} (hg : g ∈ f.globals) : Declares f g.line g.documentation

/-- What holds of the statements of a text holds of what the file declares. -/
theorem declares_of_statementsOf (parsed : StubFile.parse text path = .ok f)
    (here : ∀ l ∈ statementsOf text, P l.line l.documentation) {line : Nat}
    {documentation : Option String} (h : f.Declares line documentation) : P line documentation := by
  rw [← toOption_eq_some_iff, parse_eq_run] at parsed
  obtain ⟨r, run, finish⟩ := Option.bind_eq_some_iff.mp parsed
  have declared := Reading.declared_run (Reading.declared_empty path) here run
  unfold Reading.finish? Reading.finish at finish
  split at finish
  · cases finish
  · cases finish
    have recorded : ∀ n ∈ r.namespaces.map fun n =>
        { n with methods := applyAliases n.methods n.aliases }, n.Declared P :=
      List.forall_mem_map.mpr fun n hn => (declared.namespaces n hn).recorded
    cases h with
    | opened hn explicit => exact (recorded _ hn).opened explicit
    | method hn hm => exact (recorded _ hn).methods _ hm
    | constant hn hc => exact (recorded _ hn).constants _ hc
    | global hg => exact declared.globals _ hg

open Documentation

/-- What a file declares on a line is documented by the comments directly above it, which are none
or all blank if it has no documentation. No comment documents what is declared on two lines, and
between a comment and what it documents stand only comments. -/
theorem documentation_is_above (parsed : StubFile.parse text path = .ok f) :
    (∀ line documentation, f.Declares line documentation →
      documentation = above text line) ∧
    (∀ line, above text line = none ↔
      ∀ c ∈ lastComments (linesAbove text line), Text.blankText c = true) ∧
    (∀ raw k line₁ line₂ documentation₁ documentation₂,
      f.Declares line₁ documentation₁ → f.Declares line₂ documentation₂ →
      (raw, k) ∈ lastRun (linesAbove text line₁) → (raw, k) ∈ lastRun (linesAbove text line₂) →
        line₁ = line₂) ∧
    ∀ raw k line, (raw, k) ∈ lastRun (linesAbove text line) →
      k < line ∧ ∀ raw' i, (raw', i) ∈ (Text.lines text.toList).zipIdx 1 → k ≤ i → i < line →
        IsComment raw' := by
  have here : ∀ l ∈ statementsOf text, l.documentation = above text l.line ∧ IsCode text l.line :=
    fun l hl => documentation_of_mem_statementsOf hl
  have below {line : Nat} {documentation : Option String} (h : f.Declares line documentation) :=
    declares_of_statementsOf (P := fun line documentation =>
      documentation = above text line ∧ IsCode text line) parsed here h
  refine ⟨fun line documentation h => (below h).1, fun line => join_eq_none_iff, ?_,
    fun raw k line h => isComment_of_mem_lastRun h⟩
  -- A line with a declaration is no comment, so that it ends every run that reaches it.
  have apart {raw : List Char} {k line₁ line₂ : Nat} (code : IsCode text line₁)
      (first : (raw, k) ∈ lastRun (linesAbove text line₁))
      (second : (raw, k) ∈ lastRun (linesAbove text line₂)) : line₂ ≤ line₁ := by
    obtain ⟨raw', source, listed, read⟩ := code
    have before := (isComment_of_mem_lastRun first).1
    have form := read_cases line₁ raw'
    rw [read] at form
    by_contra after
    exact form ((isComment_of_mem_lastRun second).2 raw' line₁ listed before.le (by omega))
  intro raw k line₁ line₂ documentation₁ documentation₂ h₁ h₂ first second
  exact le_antisymm (apart (below h₂).2 second first) (apart (below h₁).2 first second)

def crateText : String :=
  "# frozen_string_literal: true\n# A crate.\nmodule Crate\n  # Lost.\n\n  module_function\n" ++
    "  # Opens it\n  #   at once.\n  def open(lid) end\n  # Lost too.\nend\nLIMIT = 3"

def crateOpen : Method where
  name := "open"
  receiver := .singleton
  parameters := [⟨"lid", .required, none⟩]
  documentation := some "Opens it\n  at once."
  line := 9

def crateModule : Namespace where
  kind := .modul
  name := "Crate"
  qualifiedName := "Crate"
  methods := [{ crateOpen with receiver := .inst, visibility := .priv }, crateOpen]
  documentation := some "A crate."
  path := "crate.rb"
  line := 3

def crateFile : StubFile where
  path := "crate.rb"
  namespaces :=
    [crateModule,
      { kind := .klass, name := "Object", qualifiedName := "Object", path := "crate.rb",
        constants := [⟨"LIMIT", "3", none, 12⟩], implicit := true }]

theorem crate_documentation_is_above :
    StubFile.parse crateText "crate.rb" = .ok crateFile ∧
      crateFile.Declares 9 (some "Opens it\n  at once.") ∧
      above crateText 9 = some "Opens it\n  at once." ∧
      crateFile.Declares 3 (some "A crate.") ∧ above crateText 3 = some "A crate." ∧
      crateFile.Declares 12 none ∧ above crateText 12 = none := by
  have parsed : StubFile.parse crateText "crate.rb" = .ok crateFile := by decide +kernel
  have above_eq := (documentation_is_above parsed).1
  have method : crateFile.Declares 9 (some "Opens it\n  at once.") :=
    .method (n := crateModule) (m := crateOpen) (by simp [crateFile]) (by simp [crateModule])
  have opened : crateFile.Declares 3 (some "A crate.") :=
    .opened (n := crateModule) (by simp [crateFile]) rfl
  have constant : crateFile.Declares 12 none :=
    .constant (c := ⟨"LIMIT", "3", none, 12⟩) (List.mem_cons_of_mem _ List.mem_cons_self)
      List.mem_cons_self
  exact ⟨parsed, method, (above_eq 9 _ method).symm, opened, (above_eq 3 _ opened).symm, constant,
    (above_eq 12 _ constant).symm⟩

end StubFile

end RubyIndex
