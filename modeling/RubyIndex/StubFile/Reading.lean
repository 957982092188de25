import RubyIndex.Parameter.Parse
import RubyIndex.Statement
import RubyIndex.StubFile
import RubyIndex.StubFile.Line
/-!
Reading a stub file line by line. A stack of scopes says which class, module or `class << self`
body is open, and what a definition in it becomes. Definitions outside all of them belong to an
implicit class `Object`, which is opened by the first of them.
-/

namespace RubyIndex

/-- An open body: the namespace that it fills, by its place in the file and its name, and the
receiver, visibility and mode of the definitions that follow. -/
structure Scope where
  slot : Nat
  owner : String
  receiver : Receiver := .inst
  visibility : Visibility := .pub
  moduleFunctions : Bool := false
  line : Nat := 0
  deriving DecidableEq, Repr

/-- What has been read of a file. The innermost scope comes first. The methods of a namespace
carry no aliases before the file is complete. -/
structure Reading where
  path : String
  namespaces : List Namespace := []
  scopes : List Scope := []
  outermost : Option Scope := none
  globals : List GlobalVariable := []
  diagnostics : List Diagnostic := []
  comments : List (List Char) := []
  deriving DecidableEq, Repr

/-- The class that definitions outside all classes and modules belong to. -/
def implicitOwner : String := "Object"

def makeModuleFunction (methods : List Method) (name : String) : List Method :=
  match methods.find? (·.reachedBy name .inst) with
  | none => methods
  | some m =>
    updateFirst name .inst (fun m => { m with visibility := .priv }) methods ++
      [{ m with receiver := .singleton, visibility := .pub }]

namespace Scope

/-- The methods that a definition adds: one, or under `module_function` a private instance method
and a public singleton copy of it. -/
def place (s : Scope) (m : Method) : List Method :=
  if s.moduleFunctions && m.receiver == .inst then
    [{ m with visibility := .priv }, { m with receiver := .singleton, visibility := .pub }]
  else [m]

def publish (s : Scope) (visibility : Visibility) (methods : List Method) (name : String) :
    List Method :=
  updateFirst name s.receiver (fun m => { m with visibility := visibility }) methods

/-- Adds mixins to the namespace of the scope, where `self` is its own name. What is included in
`class << self` extends the namespace. -/
def mix (s : Scope) (kind : MixinKind) (names : List String) (n : Namespace) : Namespace :=
  let names := names.map fun name => if name = "self" then s.owner else name
  match kind, s.receiver with
  | .prep, _ => { n with prepended := n.prepended ++ names }
  | .incl, .inst => { n with included := n.included ++ names }
  | _, _ => { n with extended := n.extended ++ names }

end Scope

namespace Reading

def addNamespace (r : Reading) (n : Namespace) : Reading :=
  { r with namespaces := r.namespaces ++ [n] }

/-- The scope that definitions go to. Outside all bodies it is the one of the implicit class, which
is opened if it is not yet, and in which methods are private. -/
def current (r : Reading) : Scope × Reading :=
  match r.scopes, r.outermost with
  | s :: _, _ => (s, r)
  | [], some s => (s, r)
  | [], none =>
    let s : Scope := ⟨r.namespaces.length, implicitOwner, .inst, .priv, false, 0⟩
    (s, { r.addNamespace
            { kind := .klass, name := implicitOwner, qualifiedName := implicitOwner,
              path := r.path, implicit := true } with outermost := some s })

def addGlobal (r : Reading) (g : GlobalVariable) : Reading :=
  { r with globals := r.globals ++ [g] }

def edit (r : Reading) (s : Scope) (change : Namespace → Namespace) : Reading :=
  { r with namespaces := r.namespaces.modify s.slot change }

def setCurrent (r : Reading) (s : Scope) : Reading :=
  match r.scopes with
  | _ :: outer => { r with scopes := s :: outer }
  | [] => { r with outermost := some s }

def qualify (r : Reading) (path : String) : String :=
  match absolute? path, r.scopes with
  | some name, _ => name
  | none, s :: _ => s!"{s.owner}::{path}"
  | none, [] => path

def openNamespace (r : Reading) (h : Header) (line : Nat) (documentation : Option String) :
    Reading :=
  let name := r.qualify h.path
  let n : Namespace :=
    { kind := h.kind, name := (nameSegments name).getLast?.getD name, qualifiedName := name,
      superclass := h.superclass, documentation := documentation, path := r.path, line := line }
  let s : Scope := { slot := r.namespaces.length, owner := name, line := line }
  { r.addNamespace n with scopes := s :: r.scopes }

def openSingleton (r : Reading) (line : Nat) : Reading :=
  let (s, r) := r.current
  { r with
    scopes := { slot := s.slot, owner := s.owner, receiver := .singleton, line := line } ::
      r.scopes }

def close (r : Reading) (line : Nat) : Except ParseError Reading :=
  match r.scopes with
  | [] => .error ⟨r.path, line, .unexpectedEnd⟩
  | _ :: outer => .ok { r with scopes := outer }

/-- Adds the method of a `def` line. A bare visibility in a class body does not reach the methods
that are defined on `self`. -/
def define (r : Reading) (visibility : Option Visibility) (source : String) (line : Nat)
    (documentation : Option String) : Except ParseError Reading :=
  match Statement.definition? source.toList with
  | none => .error ⟨r.path, line, .malformedDefinition source⟩
  | some d =>
    match Parameter.parseList d.parameters with
    | .error e => .error ⟨r.path, line, .invalidParameters e.parameters⟩
    | .ok parameters =>
      let (s, r) := r.current
      let onSelf := d.onSelf && s.receiver == .inst
      let m : Method :=
        { name := d.name
          receiver := if onSelf then .singleton else s.receiver
          visibility := visibility.getD (if onSelf then .pub else s.visibility)
          parameters := parameters
          documentation := documentation
          line := line }
      .ok (r.edit s fun n => { n with methods := n.methods ++ s.place m })

def apply (r : Reading) (statement : Statement) (line : Nat) (documentation : Option String) :
    Except ParseError Reading :=
  match statement with
  | .close => r.close line
  | .openSingleton => .ok (r.openSingleton line)
  | .openNamespace h =>
    let opened := r.openNamespace h line documentation
    if h.closed then opened.close line else .ok opened
  | .define visibility source => r.define visibility source line documentation
  | .setDefault visibility =>
    let (s, r) := r.current
    .ok (r.setCurrent { s with visibility := visibility, moduleFunctions := false })
  | .setVisibility visibility names =>
    let (s, r) := r.current
    .ok (r.edit s fun n => { n with methods := names.foldl (s.publish visibility) n.methods })
  | .beginModuleFunctions =>
    let (s, r) := r.current
    .ok (r.setCurrent { s with moduleFunctions := true })
  | .makeModuleFunctions names =>
    let (s, r) := r.current
    .ok (r.edit s fun n => { n with methods := names.foldl makeModuleFunction n.methods })
  | .alias newName oldName =>
    let (s, r) := r.current
    .ok (r.edit s fun n =>
      { n with aliases := n.aliases ++ [⟨newName, oldName, s.receiver, line⟩] })
  | .aliasGlobal newName oldName =>
    .ok (r.addGlobal
      { name := newName, aliasOf := some oldName, documentation := documentation, line := line })
  | .mixin kind names =>
    let (s, r) := r.current
    .ok (r.edit s (s.mix kind names))
  | .assignGlobal name value =>
    .ok (r.addGlobal
      { name := name, value := value, documentation := documentation, line := line })
  | .assignConstant name value =>
    let (s, r) := r.current
    .ok (r.edit s fun n =>
      { n with constants := n.constants ++ [⟨name, value, documentation, line⟩] })
  | .unrecognized source => .ok { r with diagnostics := r.diagnostics ++ [⟨source, line⟩] }

/-- Reads a line with its number. Comments wait for the declaration below them. A blank line or
any other statement drops them. -/
def step (r : Reading) (numbered : List Char × Nat) : Except ParseError Reading :=
  match Line.read numbered.2 numbered.1 with
  | .blank => .ok { r with comments := [] }
  | .magic => .ok r
  | .comment text => .ok { r with comments := r.comments ++ [text] }
  | .code source =>
    { r with comments := [] }.apply (Statement.read source) numbered.2
      (Documentation.join r.comments)

def finish (r : Reading) : Except ParseError StubFile :=
  match r.scopes with
  | s :: _ => .error ⟨r.path, s.line, .unclosed s.owner⟩
  | [] =>
    .ok { path := r.path
          namespaces := r.namespaces.map fun n =>
            { n with methods := applyAliases n.methods n.aliases }
          globals := r.globals
          diagnostics := r.diagnostics }

end Reading

def StubFile.parse (text : String) (path : String) : Except ParseError StubFile := do
  let r ← ((Text.lines text.toList).zipIdx 1).foldlM Reading.step { path := path }
  r.finish

end RubyIndex
