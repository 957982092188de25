import RubyIndex.Proofs.StatementStep

/-! The outline of a stub file: its namespaces with their names, kinds, superclasses and mixins. The
numbers of lines and what is declared in a namespace do not reach it, so that it is what the
statements of the file make of an empty outline, one after the other. -/
namespace RubyIndex

/-- The namespace without its members, its documentation and its line. Its mixins stay. -/
def Namespace.outline (n : Namespace) : Namespace :=
  { n with constants := [], methods := [], aliases := [], documentation := none, line := 0 }

def Scope.outline (s : Scope) : Scope := { s with line := 0 }

def StubFile.outline (f : StubFile) : StubFile :=
  { path := f.path, namespaces := f.namespaces.map Namespace.outline }

def Statement.ofLine? (raw : List Char) : Option Statement :=
  match Text.trim raw with
  | [] => none
  | '#' :: _ => none
  | source => some (Statement.read source)

theorem Statement.ofLine?_eq (number : Nat) (raw : List Char) :
    Statement.ofLine? raw =
      match Line.read number raw with
      | .code source => some (Statement.read source)
      | _ => none := by
  unfold Statement.ofLine? Line.read
  cases Text.trim raw with
  | nil => rfl
  | cons c rest =>
    by_cases marker : c = '#'
    · subst marker
      by_cases magic : (number ≤ 2 && Documentation.isMagic ('#' :: rest)) = true
      · simp only [if_pos magic]
      · simp only [if_neg magic]
    · simp [marker]

def Statement.ofText (text : String) : List Statement :=
  (Text.lines text.toList).filterMap Statement.ofLine?

theorem Scope.outline_mix (s : Scope) (kind : MixinKind) (names : List String) (n : Namespace) :
    (s.mix kind names n).outline = s.outline.mix kind names n.outline := by
  unfold mix
  cases kind <;> cases h : s.receiver <;> simp only [outline, Namespace.outline, h]

namespace Reading

def outline (r : Reading) : Reading where
  path := r.path
  namespaces := r.namespaces.map Namespace.outline
  scopes := r.scopes.map Scope.outline
  outermost := r.outermost.map Scope.outline

def sketch? (r : Reading) : Statement → Option Reading
  | .define _ source =>
    (Statement.definition? source.toList).bind fun d =>
      (Parameter.parseList d.parameters).toOption.map fun _ => r.current.2
  | .setVisibility _ _ | .makeModuleFunctions _ | .alias _ _ | .assignConstant _ _ =>
    some r.current.2
  | .aliasGlobal _ _ | .assignGlobal _ _ | .unrecognized _ => some r
  | statement => (r.apply statement 0 none).toOption

def sketchLines? (r : Reading) (lines : List (List Char)) : Option Reading :=
  (lines.filterMap Statement.ofLine?).foldlM sketch? r

theorem sketch_mixin (r : Reading) (kind : MixinKind) (names : List String) :
    r.sketch? (.mixin kind names) =
      some (r.current.2.edit r.current.1 (r.current.1.mix kind names)) := rfl

theorem current_outline (r : Reading) :
    r.outline.current = (r.current.1.outline, r.current.2.outline) := by
  obtain ⟨path, namespaces, _ | ⟨s, outer⟩, _ | s, globals, diagnostics, comments⟩ := r
  · simp [current, outline, addNamespace, Namespace.outline, Scope.outline]
  · rfl
  · rfl
  · rfl

theorem outline_edit {change change' : Namespace → Namespace}
    (h : ∀ n, (change n).outline = change' n.outline) (r : Reading) (s : Scope) :
    (r.edit s change).outline = r.outline.edit s.outline change' := by
  have namespaces : (r.namespaces.modify s.slot change).map Namespace.outline =
      (r.namespaces.map Namespace.outline).modify s.slot change' := by
    refine List.ext_getElem? fun i => ?_
    rw [List.getElem?_map, List.getElem?_modify, List.getElem?_modify, List.getElem?_map]
    cases r.namespaces[i]? with
    | none => rfl
    | some n => by_cases here : s.slot = i <;> simp [here, h]
  simp only [outline, edit, Scope.outline, namespaces]

/-- A change of members does not show in the outline. -/
theorem outline_edit_members {change : Namespace → Namespace}
    (h : ∀ n, (change n).outline = n.outline) (r : Reading) (s : Scope) :
    (r.edit s change).outline = r.outline := by
  have kept : ∀ n, (change n).outline = id n.outline := h
  rw [outline_edit kept, edit, List.modify_id]

theorem outline_setCurrent (r : Reading) (s : Scope) :
    (r.setCurrent s).outline = r.outline.setCurrent s.outline := by
  obtain ⟨path, namespaces, _ | ⟨inner, outer⟩, outermost, globals, diagnostics, comments⟩ := r
  · rfl
  · rfl

theorem outline_openNamespace (r : Reading) (h : Header) (line : Nat)
    (documentation : Option String) :
    (r.openNamespace h line documentation).outline = r.outline.openNamespace h 0 none := by
  have within : r.outline.scopes.head?.map (·.owner) = r.scopes.head?.map (·.owner) := by
    rw [outline, List.head?_map, Option.map_map]
    rfl
  have count : r.outline.namespaces.length = r.namespaces.length := List.length_map _
  rw [openNamespace_eq, openNamespace_eq, within, count]
  simp only [outline, List.map_append, List.map_cons, List.map_nil]
  rfl

theorem map_outline_close (r : Reading) (line other : Nat) :
    (r.close line).toOption.map outline = (r.outline.close other).toOption := by
  obtain ⟨path, namespaces, _ | ⟨inner, outer⟩, outermost, globals, diagnostics, comments⟩ := r
  · rfl
  · rfl

theorem map_outline_define (r : Reading) (visibility : Option Visibility) (source : String)
    (line : Nat) (documentation : Option String) :
    (r.define visibility source line documentation).toOption.map outline =
      r.outline.sketch? (.define visibility source) := by
  cases read : Statement.definition? source.toList with
  | none =>
    simp only [define, sketch?, read]
    rfl
  | some d =>
    cases listed : Parameter.parseList d.parameters with
    | error e =>
      simp only [define, sketch?, read, listed, Option.bind_some]
      rfl
    | ok parameters =>
      simp only [define, sketch?, read, listed, current_outline, Option.bind_some]
      refine congrArg some (outline_edit_members ?_ _ _)
      exact fun n => rfl

/-- A statement does the same to the outline, wherever it stands. -/
theorem map_outline_apply (r : Reading) (statement : Statement) (line : Nat)
    (documentation : Option String) :
    (r.apply statement line documentation).toOption.map outline =
      r.outline.sketch? statement := by
  have here := r.current_outline
  have members (change : Namespace → Namespace) (h : ∀ n, (change n).outline = n.outline) :
      (Except.ok (r.current.2.edit r.current.1 change) :
        Except ParseError Reading).toOption.map outline = some r.outline.current.2 := by
    rw [here]
    exact congrArg some (outline_edit_members h _ _)
  cases statement with
  | close => exact r.map_outline_close line 0
  | openSingleton =>
    simp only [apply, sketch?, openSingleton, here]
    rfl
  | openNamespace h =>
    simp only [apply, sketch?]
    rw [← r.outline_openNamespace h line documentation]
    by_cases closed : h.closed = true
    · rw [if_pos closed, if_pos closed]
      exact map_outline_close _ line 0
    · rw [if_neg closed, if_neg closed]
      rfl
  | define visibility source => exact r.map_outline_define visibility source line documentation
  | setDefault visibility | beginModuleFunctions =>
    simp only [apply, sketch?, here]
    exact congrArg some (outline_setCurrent _ _)
  | mixin kind names =>
    simp only [apply, sketch?, here]
    exact congrArg some (outline_edit (Scope.outline_mix _ kind names) _ _)
  | aliasGlobal newName oldName | assignGlobal name value | unrecognized source => rfl
  | _ => exact members _ fun _ => rfl

/-- Blank lines and comments leave the outline as it is. -/
theorem map_outline_step (r : Reading) (raw : List Char) (number : Nat) :
    (r.step (raw, number)).toOption.map outline =
      (Statement.ofLine? raw).toList.foldlM sketch? r.outline := by
  rw [Statement.ofLine?_eq number]
  unfold step
  cases Line.read number raw with
  | blank | magic | comment text => rfl
  | code source =>
    rw [Option.toList_some, List.foldlM_cons]
    refine (map_outline_apply _ _ _ _).trans ?_
    exact (Option.bind_fun_some _).symm

theorem map_outline_foldlM (r : Reading) (lines : List (List Char)) (first : Nat) :
    ((lines.zipIdx first).foldlM step r).toOption.map outline = r.outline.sketchLines? lines := by
  induction lines generalizing r first with
  | nil => rfl
  | cons raw lines ih =>
    have onward : r.outline.sketchLines? (raw :: lines) =
        ((Statement.ofLine? raw).toList.foldlM sketch? r.outline).bind (sketchLines? · lines) := by
      unfold sketchLines?
      cases read : Statement.ofLine? raw with
      | none => rw [List.filterMap_cons_none read]; rfl
      | some statement =>
        rw [List.filterMap_cons_some read, List.foldlM_cons, Option.toList_some]
        simp [List.foldlM_cons]
    rw [onward, ← map_outline_step r raw first, List.zipIdx_cons, List.foldlM_cons, toOption_bind]
    cases r.step (raw, first) with
    | error e => rfl
    | ok r' => exact ih r' (first + 1)

theorem map_outline_finish (r : Reading) :
    r.finish.toOption.map StubFile.outline = r.outline.finish? := by
  obtain ⟨path, namespaces, _ | ⟨inner, outer⟩, outermost, globals, diagnostics, comments⟩ := r
  · simp [finish, finish?, outline, StubFile.outline, Except.toOption, Namespace.outline,
      Function.comp_def]
  · rfl

end Reading

/-- What a file outlines is decided by its statements in their order. -/
theorem StubFile.map_outline_parse (text path : String) :
    (StubFile.parse text path).toOption.map StubFile.outline =
      ((Statement.ofText text).foldlM Reading.sketch? { path := path }).bind Reading.finish? := by
  have run := Reading.map_outline_foldlM { path := path } (Text.lines text.toList) 1
  change _ = ((Reading.outline { path := path }).sketchLines? _).bind _
  rw [← run]
  unfold StubFile.parse
  cases ((Text.lines text.toList).zipIdx 1).foldlM Reading.step { path := path } with
  | error e => rfl
  | ok r => exact r.map_outline_finish

end RubyIndex
