import Mathlib.Data.List.Forall2
import RubyIndex.Proofs.RelabelledMethods

/-! Reading without documentation. What is read of a file apart from its documentation is what is
read when no declaration is given any, so that comments do not reach anything else. -/
namespace RubyIndex

def Method.undocumented (m : Method) : Method := { m with documentation := none }

def Constant.undocumented (c : Constant) : Constant := { c with documentation := none }

def GlobalVariable.undocumented (g : GlobalVariable) : GlobalVariable :=
  { g with documentation := none }

def Namespace.undocumented (n : Namespace) : Namespace :=
  { n with
    constants := n.constants.map Constant.undocumented
    methods := n.methods.map Method.undocumented
    documentation := none }

def StubFile.undocumented (f : StubFile) : StubFile :=
  { f with
    namespaces := f.namespaces.map Namespace.undocumented
    globals := f.globals.map GlobalVariable.undocumented }

theorem map_undocumented_applyAliases (methods : List Method) (aliases : List Alias) :
    (applyAliases methods aliases).map Method.undocumented =
      applyAliases (methods.map Method.undocumented) aliases :=
  map_relabel_applyAliases id (fun _ => none) methods aliases

theorem find?_reachedBy_undocumented (methods : List Method) (name : String)
    (receiver : Receiver) :
    (methods.map Method.undocumented).find? (·.reachedBy name receiver) =
      (methods.find? (·.reachedBy name receiver)).map Method.undocumented :=
  find?_reachedBy_relabel id (fun _ => none) methods name receiver

theorem map_undocumented_makeModuleFunction (methods : List Method) (name : String) :
    (makeModuleFunction methods name).map Method.undocumented =
      makeModuleFunction (methods.map Method.undocumented) name :=
  map_relabel_makeModuleFunction id (fun _ => none) methods name

theorem Scope.map_undocumented_place (s : Scope) (m : Method) :
    (s.place m).map Method.undocumented = s.place m.undocumented :=
  s.map_relabel_place id (fun _ => none) m

theorem Scope.map_undocumented_publish (s : Scope) (visibility : Visibility)
    (methods : List Method) (name : String) :
    (s.publish visibility methods name).map Method.undocumented =
      s.publish visibility (methods.map Method.undocumented) name :=
  s.map_relabel_publish id (fun _ => none) visibility methods name

theorem Scope.undocumented_mix (s : Scope) (kind : MixinKind) (names : List String)
    (n : Namespace) : (s.mix kind names n).undocumented = s.mix kind names n.undocumented := by
  unfold mix
  cases kind <;> cases s.receiver <;> rfl

namespace Reading

def undocumented (r : Reading) : Reading :=
  { r with
    namespaces := r.namespaces.map Namespace.undocumented
    globals := r.globals.map GlobalVariable.undocumented
    comments := [] }

theorem current_undocumented (r : Reading) :
    r.undocumented.current = (r.current.1, r.current.2.undocumented) := by
  obtain ⟨path, namespaces, _ | ⟨s, outer⟩, _ | s, globals, diagnostics, comments⟩ := r
  · simp [current, undocumented, addNamespace, Namespace.undocumented]
  · rfl
  · rfl
  · rfl

theorem undocumented_edit {change change' : Namespace → Namespace}
    (h : ∀ n, (change n).undocumented = change' n.undocumented) (r : Reading) (s : Scope) :
    (r.edit s change).undocumented = r.undocumented.edit s change' := by
  have namespaces : (r.namespaces.modify s.slot change).map Namespace.undocumented =
      (r.namespaces.map Namespace.undocumented).modify s.slot change' := by
    refine List.ext_getElem? fun i => ?_
    rw [List.getElem?_map, List.getElem?_modify, List.getElem?_modify, List.getElem?_map]
    cases r.namespaces[i]? with
    | none => rfl
    | some n => by_cases here : s.slot = i <;> simp [here, h]
  rw [undocumented, edit, edit, undocumented]
  simp only [namespaces]

theorem undocumented_setCurrent (r : Reading) (s : Scope) :
    (r.setCurrent s).undocumented = r.undocumented.setCurrent s := by
  obtain ⟨path, namespaces, _ | ⟨inner, outer⟩, outermost, globals, diagnostics, comments⟩ := r
  · rfl
  · rfl

theorem undocumented_openNamespace (r : Reading) (h : Header) (line : Nat)
    (documentation : Option String) :
    (r.openNamespace h line documentation).undocumented =
      r.undocumented.openNamespace h line none := by
  have name : r.undocumented.qualify h.path = r.qualify h.path := rfl
  unfold openNamespace
  rw [name]
  simp [undocumented, addNamespace, Namespace.undocumented]

theorem map_undocumented_close (r : Reading) (line : Nat) :
    (r.close line).map undocumented = r.undocumented.close line := by
  obtain ⟨path, namespaces, _ | ⟨inner, outer⟩, outermost, globals, diagnostics, comments⟩ := r
  · rfl
  · rfl

theorem map_undocumented_define (r : Reading) (visibility : Option Visibility) (source : String)
    (line : Nat) (documentation : Option String) :
    (r.define visibility source line documentation).map undocumented =
      r.undocumented.define visibility source line none := by
  unfold define
  cases Statement.definition? source.toList with
  | none => rfl
  | some d =>
    dsimp only
    cases Parameter.parseList d.parameters with
    | error e => rfl
    | ok parameters =>
      dsimp only
      rw [current_undocumented]
      dsimp only [Except.map]
      refine congrArg Except.ok (undocumented_edit (fun n => ?_) _ _)
      simp only [Namespace.undocumented, List.map_append, Scope.map_undocumented_place]
      rfl

/-- A statement does the same without documentation, to what has been read without it. -/
theorem map_undocumented_apply (r : Reading) (statement : Statement) (line : Nat)
    (documentation : Option String) :
    (r.apply statement line documentation).map undocumented =
      r.undocumented.apply statement line none := by
  have here : r.undocumented.current = (r.current.1, r.current.2.undocumented) :=
    r.current_undocumented
  have edited (change change' : Namespace → Namespace)
      (h : ∀ n, (change n).undocumented = change' n.undocumented) :
      (Except.ok (r.current.2.edit r.current.1 change) : Except ParseError Reading).map
          undocumented = .ok (r.current.2.undocumented.edit r.current.1 change') :=
    congrArg Except.ok (undocumented_edit h _ _)
  cases statement with
  | close => exact r.map_undocumented_close line
  | openSingleton =>
    simp only [apply, openSingleton, here]
    rfl
  | openNamespace h =>
    simp only [apply]
    rw [← r.undocumented_openNamespace h line documentation]
    by_cases closed : h.closed = true
    · rw [if_pos closed, if_pos closed]
      exact map_undocumented_close _ line
    · rw [if_neg closed, if_neg closed]
      rfl
  | define visibility source => exact r.map_undocumented_define visibility source line documentation
  | setDefault visibility | beginModuleFunctions =>
    simp only [apply, here]
    exact congrArg Except.ok (undocumented_setCurrent _ _)
  | setVisibility visibility names =>
    simp only [apply, here]
    refine edited _ _ fun n => ?_
    simp only [Namespace.undocumented]
    rw [List.foldl_hom (List.map Method.undocumented) fun methods name =>
      (Scope.map_undocumented_publish _ visibility methods name).symm]
  | makeModuleFunctions names =>
    simp only [apply, here]
    refine edited _ _ fun n => ?_
    simp only [Namespace.undocumented]
    rw [List.foldl_hom (List.map Method.undocumented) fun methods name =>
      (map_undocumented_makeModuleFunction methods name).symm]
  | «alias» newName oldName =>
    simp only [apply, here]
    exact edited _ _ fun n => rfl
  | mixin kind names =>
    simp only [apply, here]
    exact edited _ _ fun n => Scope.undocumented_mix _ kind names n
  | aliasGlobal newName oldName | assignGlobal name value =>
    simp [apply, Except.map, addGlobal, undocumented, GlobalVariable.undocumented]
  | assignConstant name value =>
    simp only [apply, here]
    refine edited _ _ fun n => ?_
    simp [Namespace.undocumented, Constant.undocumented]
  | unrecognized source => rfl

/-- What a line does to what has been read without documentation: comments do nothing. -/
def undocumentedStep (r : Reading) (numbered : List Char × Nat) : Except ParseError Reading :=
  match Line.read numbered.2 numbered.1 with
  | .code source => r.apply (Statement.read source) numbered.2 none
  | _ => .ok r

theorem map_undocumented_step (r : Reading) (numbered : List Char × Nat) :
    (r.step numbered).map undocumented = r.undocumented.undocumentedStep numbered := by
  unfold step undocumentedStep
  cases Line.read numbered.2 numbered.1 with
  | code source => exact map_undocumented_apply _ _ _ _
  | blank | magic | comment text => rfl

theorem map_undocumented_finish (r : Reading) :
    r.finish.map StubFile.undocumented = r.undocumented.finish := by
  obtain ⟨path, namespaces, _ | ⟨inner, outer⟩, outermost, globals, diagnostics, comments⟩ := r
  · have applied (n : Namespace) : Namespace.undocumented
        { n with methods := applyAliases n.methods n.aliases } =
        { n.undocumented with
          methods := applyAliases n.undocumented.methods n.undocumented.aliases } := by
      simp only [Namespace.undocumented, map_undocumented_applyAliases]
    simp only [finish, undocumented, Except.map, StubFile.undocumented, List.map_map,
      Function.comp_def, applied]
  · rfl

theorem map_undocumented_foldlM (r : Reading) (lines : List (List Char × Nat)) :
    (lines.foldlM step r).map undocumented = lines.foldlM undocumentedStep r.undocumented := by
  induction lines generalizing r with
  | nil => rfl
  | cons l rest ih =>
    rw [List.foldlM_cons, List.foldlM_cons, ← map_undocumented_step]
    cases r.step l with
    | error e => rfl
    | ok r' => exact ih r'

end Reading

/-- What is read of a text without documentation. -/
theorem StubFile.map_undocumented_parse (text path : String) :
    (StubFile.parse text path).map StubFile.undocumented =
      ((Text.lines text.toList).zipIdx 1).foldlM Reading.undocumentedStep { path := path } >>=
        Reading.finish := by
  have run := Reading.map_undocumented_foldlM { path := path } ((Text.lines text.toList).zipIdx 1)
  change _ = List.foldlM Reading.undocumentedStep (Reading.undocumented { path := path }) _ >>= _
  rw [← run, StubFile.parse]
  cases ((Text.lines text.toList).zipIdx 1).foldlM Reading.step { path := path } with
  | error e => rfl
  | ok r => exact r.map_undocumented_finish

end RubyIndex
