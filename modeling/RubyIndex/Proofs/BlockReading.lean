import RubyIndex.Proofs.BlockRun
import RubyIndex.Proofs.NamespaceOrder

/-! The line loop reads a file by its blocks. A reading of the line loop holds the contents of the
body that is read, between the namespaces before it and the scopes around it. -/
namespace RubyIndex

/-! ### The method that a name means -/

theorem meant?_cons (receiver : Receiver) (name : String) (m : Method) (rest : List Method) :
    meant? receiver name (m :: rest) =
      if m.reachedBy name receiver then some ([], m, rest)
      else (meant? receiver name rest).map fun p => (m :: p.1, p.2) := by
  have same : m.reachedBy name receiver =
      !decide (m.receiver ≠ receiver ∨ (m.name ≠ name ∧ name ∉ m.aliases)) := by
    by_cases on : m.receiver = receiver
    · by_cases named : m.name = name <;> simp [Method.reachedBy, Method.answersTo, on, named]
    · simp [Method.reachedBy, on]
  unfold meant?
  rw [same]
  by_cases other : m.receiver ≠ receiver ∨ (m.name ≠ name ∧ name ∉ m.aliases)
  · simp only [other, decide_true, Bool.not_true, List.dropWhile_cons_of_pos,
      List.takeWhile_cons_of_pos, Bool.false_eq_true, if_false]
    split <;> rfl
  · simp [other]

theorem find?_eq_meant? (receiver : Receiver) (name : String) (methods : List Method) :
    methods.find? (·.reachedBy name receiver) = (meant? receiver name methods).map (·.2.1) := by
  induction methods with
  | nil => rfl
  | cons m rest ih =>
    rw [meant?_cons]
    by_cases reached : m.reachedBy name receiver = true
    · simp [reached]
    · simp [reached, ih, Function.comp_def]

theorem updateFirst_eq_meant? (receiver : Receiver) (name : String) (change : Method → Method)
    (methods : List Method) :
    updateFirst name receiver change methods =
      match meant? receiver name methods with
      | none => methods
      | some (before, m, after) => before ++ change m :: after := by
  induction methods with
  | nil => rfl
  | cons m rest ih =>
    rw [meant?_cons, updateFirst]
    by_cases reached : m.reachedBy name receiver = true
    · simp [reached]
    · simp only [reached, Bool.false_eq_true, if_false, ih]
      cases meant? receiver name rest <;> rfl

/-! ### The rules of a block are those of the line loop -/

/-- A scope of the line loop, which knows its namespace by its place and its name. -/
def LocalState.scope (s : LocalState) (slot : Nat) (owner : String) (line : Nat) : Scope :=
  { slot := slot, owner := owner, receiver := s.receiver, visibility := s.visibility,
    moduleFunctions := s.moduleFunctions, line := line }

namespace Namespace

theorem foldl_setVisibility (s : Scope) (visibility : Visibility) (names : List String)
    (n : Namespace) :
    names.foldl (·.setVisibility s.receiver visibility) n =
      { n with methods := names.foldl (s.publish visibility) n.methods } := by
  induction names generalizing n with
  | nil => rfl
  | cons name names ih =>
    have first : n.setVisibility s.receiver visibility name =
        { n with methods := s.publish visibility n.methods name } := by
      rw [Scope.publish, updateFirst_eq_meant?, setVisibility]
      cases meant? s.receiver name n.methods <;> rfl
    rw [List.foldl_cons, first, ih]
    rfl

theorem foldl_copyToSelf (names : List String) (n : Namespace) :
    names.foldl (·.copyToSelf) n =
      { n with methods := names.foldl makeModuleFunction n.methods } := by
  induction names generalizing n with
  | nil => rfl
  | cons name names ih =>
    have first : n.copyToSelf name = { n with methods := makeModuleFunction n.methods name } := by
      rw [makeModuleFunction, find?_eq_meant?, updateFirst_eq_meant?, copyToSelf]
      cases meant? .inst name n.methods <;> rfl
    rw [List.foldl_cons, first, ih]
    rfl

theorem foldl_recordAlias (aliases : List Alias) (n : Namespace) :
    aliases.foldl (·.recordAlias) n = { n with methods := applyAliases n.methods aliases } := by
  induction aliases generalizing n with
  | nil => rfl
  | cons a aliases ih =>
    have first : n.recordAlias a = { n with methods := a.record n.methods } := by
      rw [Alias.record, updateFirst_eq_meant?, recordAlias]
      cases meant? a.receiver a.oldName n.methods with
      | none => rfl
      | some p =>
        by_cases known : a.newName ∈ p.2.1.aliases <;> simp [Method.withAlias, known]
    rw [List.foldl_cons, first, ih]
    rfl

theorem addMixins_eq (s : Scope) (kind : MixinKind) (names : List String) (n : Namespace)
    (own : s.owner = n.qualifiedName) : n.addMixins s.receiver kind names = s.mix kind names n := by
  unfold addMixins Scope.mix
  rw [own]
  cases kind <;> cases s.receiver <;> rfl

theorem qualifiedName_foldl_setVisibility (receiver : Receiver) (visibility : Visibility)
    (names : List String) (n : Namespace) :
    (names.foldl (·.setVisibility receiver visibility) n).qualifiedName = n.qualifiedName := by
  let s : Scope := { slot := 0, owner := n.qualifiedName, receiver := receiver }
  exact congrArg (·.qualifiedName) (foldl_setVisibility s visibility names n)

theorem qualifiedName_foldl_copyToSelf (names : List String) (n : Namespace) :
    (names.foldl (·.copyToSelf) n).qualifiedName = n.qualifiedName :=
  congrArg (·.qualifiedName) (foldl_copyToSelf names n)

theorem qualifiedName_addMixins (n : Namespace) (receiver : Receiver) (kind : MixinKind)
    (names : List String) : (n.addMixins receiver kind names).qualifiedName = n.qualifiedName := by
  cases kind <;> cases receiver <;> rfl

end Namespace

theorem LocalState.methods?_eq (s : LocalState) (slot : Nat) (owner : String) (opened : Nat)
    (visibility : Option Visibility) (source : String) (line : Nat)
    (documentation : Option String) :
    s.methods? visibility source line documentation =
      (Statement.definition? source.toList).bind fun d =>
        (Parameter.parseList d.parameters).toOption.map fun parameters =>
          let onSelf := d.onSelf && s.receiver == .inst
          Scope.place (s.scope slot owner opened)
            { name := d.name
              receiver := if onSelf then .singleton else s.receiver
              visibility := visibility.getD (if onSelf then .pub else s.visibility)
              parameters := parameters
              documentation := documentation
              line := line } := by
  unfold methods?
  cases Statement.definition? source.toList with
  | none => rfl
  | some d =>
    simp only [Option.bind_eq_bind, Option.bind_some]
    cases (Parameter.parseList d.parameters).toOption with
    | none => rfl
    | some parameters =>
      obtain ⟨receiver, default, moduleFunctions⟩ := s
      obtain ⟨onSelf, name, written⟩ := d
      cases receiver <;> cases onSelf <;> cases moduleFunctions <;> rfl

/-- What is around a body: the namespaces before its own, and the scopes of the blocks that it
stands in. Outside all blocks there are none. -/
inductive Frame where
  | file (before : List Namespace)
  | block (before : List Namespace) (line : Nat) (outer : List Scope) (outermost : Option Scope)

namespace Frame

def nested : Frame → Bool
  | file _ => false
  | block .. => true

def before : Frame → List Namespace
  | file before => before
  | block before .. => before

def scopes (F : Frame) (s : LocalState) (owner : String) : List Scope :=
  match F with
  | file _ => []
  | block before line outer _ => s.scope before.length owner line :: outer

def outermost (F : Frame) (s : LocalState) (owner : String) : Option Scope :=
  match F with
  | file before => some (s.scope before.length owner 0)
  | block _ _ _ outermost => outermost

def line : Frame → Nat
  | file _ => 0
  | block _ line _ _ => line

def reading (F : Frame) (s : LocalState) (c : Contents) : Reading where
  path := c.file.path
  namespaces := F.before ++ c.own :: c.file.namespaces
  scopes := F.scopes s c.own.qualifiedName
  outermost := F.outermost s c.own.qualifiedName
  globals := c.file.globals
  diagnostics := c.file.diagnostics

def inner (r : Reading) (line : Nat) : Frame := block r.namespaces line r.scopes r.outermost

@[simp] theorem nested_file (before : List Namespace) : (file before).nested = false := rfl

@[simp] theorem nested_inner (r : Reading) (line : Nat) : (inner r line).nested = true := rfl

theorem pop_inner (r : Reading) (line : Nat) (s : LocalState) (c : Contents) :
    ((inner r line).reading s c).pop? =
      some { path := c.file.path, namespaces := r.namespaces ++ c.own :: c.file.namespaces,
             scopes := r.scopes, outermost := r.outermost, globals := c.file.globals,
             diagnostics := c.file.diagnostics } := rfl

variable (F : Frame) (s : LocalState) (c : Contents)

def scope : Scope := s.scope F.before.length c.own.qualifiedName F.line

theorem current_reading : (F.reading s c).current = (F.scope s c, F.reading s c) := by
  cases F <;> rfl

theorem edit_reading {change written : Namespace → Namespace} (same : change c.own = written c.own)
    (keeps : (written c.own).qualifiedName = c.own.qualifiedName) :
    (F.reading s c).edit (F.scope s c) change = F.reading s (c.edit written) := by
  have modified : (F.before ++ c.own :: c.file.namespaces).modify F.before.length change =
      F.before ++ change c.own :: c.file.namespaces :=
    List.modifyTailIdx_add (List.modifyHead change) 0 F.before (c.own :: c.file.namespaces)
  rw [Reading.edit]
  simp only [reading, scope, LocalState.scope, modified, Contents.edit, same, keeps]

theorem setCurrent_reading (s' : LocalState) :
    (F.reading s c).setCurrent (F.scope s' c) = F.reading s' c := by
  cases F <;> rfl

theorem define_reading (visibility : Option Visibility) (source : String) (line : Nat)
    (documentation : Option String) :
    ((F.reading s c).define visibility source line documentation).toOption =
      (s.methods? visibility source line documentation).map fun added =>
        F.reading s (c.edit fun n => { n with methods := n.methods ++ added }) := by
  rw [s.methods?_eq F.before.length c.own.qualifiedName F.line]
  unfold Reading.define
  cases Statement.definition? source.toList with
  | none => rfl
  | some d =>
    cases hp : Parameter.parseList d.parameters with
    | error e => simp [hp, Except.toOption]
    | ok parameters =>
      simp only [Option.bind_some, hp, current_reading]
      exact congrArg some (F.edit_reading s c rfl rfl)

/-- A statement that opens and closes nothing changes the state and the contents of the body that
it stands in, and nothing around it. -/
theorem plain_reading (l : Located) :
    (F.reading s c).plain? l = (c.amend? s l).map fun p => F.reading p.1 p.2 := by
  unfold Reading.plain? Reading.act? Contents.amend?
  cases hs : l.statement with
  | close | openSingleton | openNamespace header => simp [StubFile.note?, hs]
  | aliasGlobal newName oldName | assignGlobal name value | unrecognized source =>
    simp only [StubFile.note?, hs]
    rfl
  | define visibility source =>
    simp only [Reading.apply, define_reading, Option.map_map]
    rfl
  | setDefault visibility =>
    simp only [Reading.apply, current_reading]
    exact congrArg some
      (F.setCurrent_reading s c { s with visibility := visibility, moduleFunctions := false })
  | beginModuleFunctions =>
    simp only [Reading.apply, current_reading]
    exact congrArg some (F.setCurrent_reading s c { s with moduleFunctions := true })
  | setVisibility visibility names =>
    simp only [Reading.apply, current_reading]
    have same := c.own.foldl_setVisibility (F.scope s c) visibility names
    have keeps := c.own.qualifiedName_foldl_setVisibility s.receiver visibility names
    exact congrArg some (F.edit_reading s c same.symm keeps)
  | makeModuleFunctions names =>
    simp only [Reading.apply, current_reading]
    have same := c.own.foldl_copyToSelf names
    exact congrArg some (F.edit_reading s c same.symm (c.own.qualifiedName_foldl_copyToSelf names))
  | mixin kind names =>
    simp only [Reading.apply, current_reading]
    have same := c.own.addMixins_eq (F.scope s c) kind names rfl
    have keeps := c.own.qualifiedName_addMixins s.receiver kind names
    exact congrArg some (F.edit_reading s c same.symm keeps)
  | _ =>
    -- An alias or a constant is added.
    simp only [Reading.apply, current_reading]
    exact congrArg some (F.edit_reading s c rfl rfl)

theorem openNamespace_reading (h : Header) (line : Nat) (documentation : Option String) :
    (F.reading s c).openNamespace h line documentation =
      let within := if F.nested then some c.own.qualifiedName else none
      let own := h.namespace within c.file.path line documentation
      (inner (F.reading s c) line).reading {} (c.file.enter own) := by
  rw [Reading.openNamespace_eq]
  cases F <;> rfl

/-- After the `end` of a class or module its namespace and those in it follow the ones before. -/
theorem pop_inner_namespace (s' : LocalState) (d : Contents) (line : Nat) :
    ((inner (F.reading s c) line).reading s' d).pop? =
      some (F.reading s { c with file := c.file.leave d }) := by
  rw [pop_inner]
  simp [reading, StubFile.leave]

def aside (line : Nat) : Frame :=
  block F.before line (F.scopes s c.own.qualifiedName) (F.outermost s c.own.qualifiedName)

@[simp] theorem nested_aside (line : Nat) : (F.aside s c line).nested = true := rfl

theorem openSingleton_reading (line : Nat) :
    (F.reading s c).openSingleton line =
      (F.aside s c line).reading { receiver := .singleton } c := by
  rw [Reading.openSingleton, current_reading]
  rfl

theorem pop_singleton (s' : LocalState) (d : Contents) (line : Nat)
    (same : d.own.qualifiedName = c.own.qualifiedName) :
    ((F.aside s c line).reading s' d).pop? = some (F.reading s d) := by
  unfold aside
  rw [← same]
  rfl

end Frame

/-- No statement renames the namespace of the body that it stands in. -/
theorem Contents.qualifiedName_amend {c d : Contents} {s t : LocalState} {l : Located}
    (h : c.amend? s l = some (t, d)) : d.own.qualifiedName = c.own.qualifiedName := by
  unfold amend? at h
  cases hs : l.statement with
  | define visibility source =>
    rw [hs] at h
    obtain ⟨added, -, eq⟩ := Option.map_eq_some_iff.mp h
    cases eq
    rfl
  | setVisibility visibility names =>
    rw [hs] at h
    cases h
    exact c.own.qualifiedName_foldl_setVisibility s.receiver visibility names
  | makeModuleFunctions names =>
    rw [hs] at h
    cases h
    exact c.own.qualifiedName_foldl_copyToSelf names
  | mixin kind names =>
    rw [hs] at h
    cases h
    exact c.own.qualifiedName_addMixins s.receiver kind names
  | close | openSingleton | openNamespace header | aliasGlobal newName oldName
  | assignGlobal name value | unrecognized source =>
    rw [hs] at h
    obtain ⟨f, -, eq⟩ := Option.map_eq_some_iff.mp h
    cases eq
    rfl
  | _ =>
    rw [hs] at h
    cases h
    rfl

/-- A body keeps the name of the namespace that it fills. -/
theorem Body.qualifiedName_read {b : Body} {nested : Bool} {s t : LocalState} {c d : Contents}
    (h : b.read nested s c = some (t, d)) : d.own.qualifiedName = c.own.qualifiedName := by
  induction b generalizing nested s t c d with
  | nil =>
    cases h
    rfl
  | plain l rest ih =>
    obtain ⟨p, amended, later⟩ := Option.bind_eq_some_iff.mp h
    exact (ih later).trans (Contents.qualifiedName_amend amended)
  | block header line documentation inside rest inside_ih rest_ih =>
    obtain ⟨p, -, later⟩ := Option.bind_eq_some_iff.mp h
    exact (rest_ih later : _)
  | singleton line inside rest inside_ih rest_ih =>
    obtain ⟨p, first, later⟩ := Option.bind_eq_some_iff.mp h
    exact (rest_ih later).trans (inside_ih first)

/-- The line loop over a body is the reading of the body, with the same things around it. -/
theorem Body.run_reading (b : Body) (F : Frame) (s : LocalState) (c : Contents) :
    b.run (F.reading s c) = (b.read F.nested s c).map fun p => F.reading p.1 p.2 := by
  induction b generalizing F s c with
  | nil => rfl
  | plain l rest ih =>
    simp only [run, read, F.plain_reading]
    cases c.amend? s l with
    | none => rfl
    | some p => exact ih F p.1 p.2
  | block header line documentation inside rest inside_ih rest_ih =>
    simp only [run, read, F.openNamespace_reading, inside_ih, Frame.nested_inner]
    cases inside.read true _ _ with
    | none => rfl
    | some p =>
      simp only [Option.map_some, Option.bind_some, F.pop_inner_namespace]
      exact rest_ih F s _
  | singleton line inside rest inside_ih rest_ih =>
    simp only [run, read, F.openSingleton_reading, inside_ih, Frame.nested_aside]
    cases first : inside.read true _ _ with
    | none => rfl
    | some p =>
      simp only [Option.map_some, Option.bind_some,
        F.pop_singleton s c p.1 p.2 line (qualifiedName_read first)]
      exact rest_ih F s p.2

namespace StubFile

def outside (f : StubFile) : Reading where
  path := f.path
  namespaces := f.namespaces
  globals := f.globals
  diagnostics := f.diagnostics

theorem recordAliases_eq (f : StubFile) :
    f.recordAliases =
      { f with namespaces := f.namespaces.map fun n =>
          { n with methods := applyAliases n.methods n.aliases } } := by
  simp only [recordAliases, Namespace.foldl_recordAlias]

theorem finish_outside (f : StubFile) : f.outside.finish? = some f.recordAliases := by
  rw [recordAliases_eq]
  rfl

theorem finish_reading (f : StubFile) (s : LocalState) (c : Contents) :
    ((Frame.file f.namespaces).reading s c).finish? = some (f.leave c).recordAliases := by
  rw [recordAliases_eq]
  rfl

theorem current_outside (f : StubFile) : f.outside.current.2 =
    (Frame.file f.namespaces).reading { visibility := .priv }
      (f.enter (Body.implicitClass f.path)) := rfl

theorem plain_outside {f : StubFile} {l : Located} {g : StubFile} (h : f.note? l = some g) :
    f.outside.plain? l = some g.outside := by
  unfold note? at h
  unfold Reading.plain? Reading.act?
  cases hs : l.statement <;> simp only [hs, reduceCtorEq, Option.some.injEq] at h
  all_goals
    subst h
    rfl

theorem plain_current {f : StubFile} {l : Located} (h : f.note? l = none) :
    f.outside.plain? l = f.outside.current.2.plain? l := by
  unfold note? at h
  unfold Reading.plain? Reading.act?
  cases hs : l.statement <;> simp only [hs, reduceCtorEq] at h <;> rfl

theorem openNamespace_outside (f : StubFile) (h : Header) (line : Nat)
    (documentation : Option String) :
    f.outside.openNamespace h line documentation =
      let own := h.namespace none f.path line documentation
      (Frame.inner f.outside line).reading {} (f.enter own) := by
  rw [Reading.openNamespace_eq]
  rfl

theorem pop_inner_outside (f : StubFile) (s : LocalState) (c : Contents) (line : Nat) :
    ((Frame.inner f.outside line).reading s c).pop? = some (f.leave c).outside := rfl

end StubFile

namespace Body

open StubFile

/-- A body that needs the implicit class is read as the body of it. -/
theorem finish_current (b : Body) (f : StubFile) :
    (b.run f.outside.current.2).bind Reading.finish? =
      (b.readImplicit f).map (·.recordAliases) := by
  rw [current_outside, run_reading, Frame.nested_file, readImplicit]
  cases b.read _ _ _ with
  | none => rfl
  | some p => exact finish_reading f p.1 p.2

/-- The line loop over the body of a file is the reading of the file. -/
theorem run_outside (b : Body) (f : StubFile) :
    (b.run f.outside).bind Reading.finish? = (b.readFile f).map (·.recordAliases) := by
  induction b generalizing f with
  | nil => exact finish_outside f
  | plain l rest ih =>
    rw [readFile]
    cases note : f.note? l with
    | some g =>
      rw [run, plain_outside note]
      exact ih g
    | none =>
      rw [run, plain_current note]
      exact finish_current (plain l rest) f
  | block header line documentation inside rest inside_ih rest_ih =>
    simp only [run, readFile, openNamespace_outside, run_reading, Frame.nested_inner]
    cases inside.read true _ _ with
    | none => rfl
    | some p =>
      simp only [Option.map_some, Option.bind_some, pop_inner_outside]
      exact rest_ih (f.leave p.2)
  | singleton line inside rest inside_ih rest_ih =>
    exact finish_current (singleton line inside rest) f

end Body

namespace StubFile

theorem parse_eq_readBlocks? (text path : String) :
    (StubFile.parse text path).toOption = StubFile.readBlocks? text path := by
  rw [parse_eq_run, Reading.run_finish rfl, readBlocks?]
  cases bodies (statementsOf text) with
  | none => rfl
  | some levels =>
    match levels with
    | [] => rfl
    | [b] => exact b.run_outside { path := path }
    | _ :: _ :: _ => rfl

theorem openedLines_ascending {text path : String} {f : StubFile}
    (h : StubFile.parse text path = .ok f) : (openedLines f.namespaces).Pairwise (· < ·) := by
  have read := toOption_eq_some_iff.mpr h
  rw [parse_eq_run] at read
  obtain ⟨r, run, finish⟩ := Option.bind_eq_some_iff.mp read
  rw [openedLines_finish finish, Reading.openedLines_run run]
  exact (located_ascending _ [] 1).1.sublist (headerLines_sublist _)

/-- A stub file is read as its blocks are. Its namespaces are listed in the order of their lines,
and the `end` of a block gives back what the definitions after it belong to and become. -/
theorem parse_reads_blocks (text path : String) :
    (StubFile.parse text path).toOption = StubFile.readBlocks? text path ∧
      (∀ f, StubFile.parse text path = .ok f → (openedLines f.namespaces).Pairwise (· < ·)) ∧
      ∀ (r r' : Reading) (l last : Located) (inside : List Located) (b : Body),
        l.opens = true → last.statement = .close → bodies inside = some [b] →
        r.run? (l :: inside ++ [last]) = some r' →
        r'.scopes = r.scopes ∧ r'.current.1.owner = r.current.1.owner ∧
          r'.current.1.mode = r.current.1.mode :=
  ⟨parse_eq_readBlocks? text path, fun _ => openedLines_ascending,
    fun _ _ _ _ _ _ opens closes whole run => Reading.block_restores opens closes whole run⟩

/-- A module under `module_function`, and a class in it whose methods are private. Mixins stand in
both, and in the `class << self` body of the class. -/
def nestedText : String :=
  "module Outer\nextend self\nmodule_function\n" ++
    "class Inner\nprivate\nprepend Loud\ndef a; end\nalias b a\n" ++
    "class << self\ninclude Quiet\ndef make; end\nend\n" ++
    "SIZE = 3\npublic :a\ndef c; end\nend\n" ++
    "def d; end\ninclude Base\nend\ndef e; end"

def nestedFile : StubFile where
  path := "outer.rb"
  namespaces :=
    [{ kind := .modul, name := "Outer", qualifiedName := "Outer", path := "outer.rb", line := 1,
       included := ["Base"], extended := ["Outer"],
       methods :=
         [{ name := "d", visibility := .priv, line := 17 },
          { name := "d", receiver := .singleton, line := 17 }] },
     { kind := .klass, name := "Inner", qualifiedName := "Outer::Inner", path := "outer.rb",
       line := 4, extended := ["Quiet"], prepended := ["Loud"],
       constants := [{ name := "SIZE", value := "3", line := 13 }],
       methods :=
         [{ name := "a", aliases := ["b"], line := 7 },
          { name := "make", receiver := .singleton, line := 11 },
          { name := "c", visibility := .priv, line := 15 }],
       aliases := [{ newName := "b", oldName := "a", line := 8 }] },
     { kind := .klass, name := "Object", qualifiedName := "Object", path := "outer.rb",
       methods := [{ name := "e", visibility := .priv, line := 20 }], implicit := true }]

def outerReading : Reading where
  path := "outer.rb"
  namespaces :=
    [{ kind := .modul, name := "Outer", qualifiedName := "Outer", path := "outer.rb", line := 1,
       extended := ["Outer"] }]
  scopes := [{ slot := 0, owner := "Outer", moduleFunctions := true, line := 1 }]

def innerStatements : List Located :=
  [⟨.setDefault .priv, 5, none⟩, ⟨.mixin .prep ["Loud"], 6, none⟩,
   ⟨.define none "def a; end", 7, none⟩, ⟨.alias "b" "a", 8, none⟩, ⟨.openSingleton, 9, none⟩,
   ⟨.mixin .incl ["Quiet"], 10, none⟩, ⟨.define none "def make; end", 11, none⟩,
   ⟨.close, 12, none⟩, ⟨.assignConstant "SIZE" "3", 13, none⟩,
   ⟨.setVisibility .pub ["a"], 14, none⟩, ⟨.define none "def c; end", 15, none⟩]

theorem nested_reads_blocks :
    StubFile.parse nestedText "outer.rb" = .ok nestedFile ∧
      StubFile.readBlocks? nestedText "outer.rb" = some nestedFile ∧
      (openedLines nestedFile.namespaces).Pairwise (· < ·) ∧
      ∃ r', outerReading.run? (((statementsOf nestedText).drop 3).take 13) = some r' ∧
        r'.current.1.mode = (.inst, .pub, true) := by
  have parsed : StubFile.parse nestedText "outer.rb" = .ok nestedFile :=
    toOption_eq_some_iff.mp (by decide +kernel)
  have reads := parse_reads_blocks nestedText "outer.rb"
  refine ⟨parsed, by rw [← reads.1, parsed]; rfl, reads.2.1 nestedFile parsed, ?_⟩
  let l : Located := ⟨.openNamespace { kind := .klass, path := "Inner" }, 4, none⟩
  let last : Located := ⟨.close, 16, none⟩
  have block : ((statementsOf nestedText).drop 3).take 13 = l :: innerStatements ++ [last] := by
    decide +kernel
  have runs : (outerReading.run? (l :: innerStatements ++ [last])).isSome = true := by
    decide +kernel
  obtain ⟨r', run⟩ := Option.isSome_iff_exists.mp runs
  exact ⟨r', block ▸ run, (reads.2.2 outerReading r' l last innerStatements _ rfl rfl rfl run).2.2⟩

end StubFile

end RubyIndex
