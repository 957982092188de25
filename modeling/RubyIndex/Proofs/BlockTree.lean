import RubyIndex.StubFile.Reading

/-! Reading a stub file by its blocks. The statements are grouped into a tree of class, module and
`class << self` blocks. Each block is read on its own, by rules that are written here: what a
definition becomes, which method a name means, and which list a mixin goes to. -/
namespace RubyIndex

structure Located where
  statement : Statement
  line : Nat
  documentation : Option String
  deriving DecidableEq, Repr

def located (comments : List (List Char)) : List (List Char × Nat) → List Located
  | [] => []
  | (raw, number) :: rest =>
    match Line.read number raw with
    | .blank => located [] rest
    | .magic => located comments rest
    | .comment text => located (comments ++ [text]) rest
    | .code source =>
      ⟨Statement.read source, number, Documentation.join comments⟩ :: located [] rest

def statementsOf (text : String) : List Located :=
  located [] ((Text.lines text.toList).zipIdx 1)

inductive Body where
  | nil
  | plain (l : Located) (rest : Body)
  | block (header : Header) (line : Nat) (documentation : Option String) (inside rest : Body)
  | singleton (line : Nat) (inside rest : Body)
  deriving Repr

/-- Puts a statement before the bodies that follow it: the one that it stands in, then what
follows the `end` of that body, and so on outwards. An `end` begins a new body. The first line of
a block joins the body that it opens to the next one. -/
def Located.group (l : Located) (levels : List Body) : Option (List Body) :=
  match l.statement, levels with
  | .close, levels => some (.nil :: levels)
  | .openNamespace h, levels =>
    match (if h.closed then .nil :: levels else levels) with
    | inside :: rest :: outer => some (.block h l.line l.documentation inside rest :: outer)
    | _ => none
  | .openSingleton, inside :: rest :: outer => some (.singleton l.line inside rest :: outer)
  | .openSingleton, _ => none
  | _, body :: outer => some (.plain l body :: outer)
  | _, [] => none

/-- The bodies that statements make. There is one for the place before the first of them, and one
for what follows each `end` of a block that was opened before them. -/
def bodies (ls : List Located) : Option (List Body) := ls.foldrM Located.group [.nil]

/-- The qualified name of a block in a block with a name, or outside all blocks. A name with a
leading `::` starts afresh. -/
def Header.qualifiedName (h : Header) (within : Option String) : String :=
  match h.path.toList, within with
  | ':' :: ':' :: path, _ => String.ofList path
  | _, some outer => s!"{outer}::{h.path}"
  | _, none => h.path

def Header.namespace (h : Header) (within : Option String) (path : String) (line : Nat)
    (documentation : Option String) : Namespace :=
  let name := h.qualifiedName within
  { kind := h.kind, name := (nameSegments name).getLast?.getD name, qualifiedName := name,
    superclass := h.superclass, documentation := documentation, path := path, line := line }

structure LocalState where
  receiver : Receiver := .inst
  visibility : Visibility := .pub
  moduleFunctions : Bool := false
  deriving DecidableEq, Repr

/-- The methods that a `def` line makes. Under `module_function` there are two of an instance
method. What is defined on `self` in a class body is public unless the line says otherwise. -/
def LocalState.methods? (s : LocalState) (visibility : Option Visibility) (source : String)
    (line : Nat) (documentation : Option String) : Option (List Method) := do
  let d ← Statement.definition? source.toList
  let parameters ← (Parameter.parseList d.parameters).toOption
  let written (receiver : Receiver) (visibility : Visibility) : Method :=
    ⟨d.name, receiver, visibility, parameters, documentation, [], line⟩
  match s.receiver, d.onSelf, s.moduleFunctions with
  | .singleton, _, _ => some [written .singleton (visibility.getD s.visibility)]
  | .inst, true, _ => some [written .singleton (visibility.getD .pub)]
  | .inst, false, true => some [written .inst .priv, written .singleton .pub]
  | .inst, false, false => some [written .inst (visibility.getD s.visibility)]

/-- The method that a name means on a receiver, between the methods before it and those after it.
It is the first one with the receiver that has the name or an alias of that name. -/
def meant? (receiver : Receiver) (name : String) (methods : List Method) :
    Option (List Method × Method × List Method) :=
  let other (m : Method) : Bool :=
    m.receiver ≠ receiver ∨ (m.name ≠ name ∧ name ∉ m.aliases)
  match methods.dropWhile other with
  | [] => none
  | m :: after => some (methods.takeWhile other, m, after)

namespace Namespace

def setVisibility (n : Namespace) (receiver : Receiver) (visibility : Visibility) (name : String) :
    Namespace :=
  match meant? receiver name n.methods with
  | none => n
  | some (before, m, after) =>
    { n with methods := before ++ { m with visibility := visibility } :: after }

/-- The instance method that a name means becomes private, and a public copy of it on `self` is
written after all others. -/
def copyToSelf (n : Namespace) (name : String) : Namespace :=
  match meant? .inst name n.methods with
  | none => n
  | some (before, m, after) =>
    let copy : Method := { m with receiver := .singleton, visibility := .pub }
    { n with methods := before ++ { m with visibility := .priv } :: after ++ [copy] }

/-- Names modules in the list that `include`, `extend` or `prepend` is for. In `class << self` an
`include` is an `extend`. The name `self` stands for the namespace. -/
def addMixins (n : Namespace) (receiver : Receiver) (kind : MixinKind) (names : List String) :
    Namespace :=
  let written := names.map fun name => if name = "self" then n.qualifiedName else name
  match kind, receiver with
  | .incl, .inst => { n with included := n.included ++ written }
  | .incl, .singleton => { n with extended := n.extended ++ written }
  | .ext, _ => { n with extended := n.extended ++ written }
  | .prep, _ => { n with prepended := n.prepended ++ written }

def recordAlias (n : Namespace) (a : Alias) : Namespace :=
  match meant? a.receiver a.oldName n.methods with
  | none => n
  | some (before, m, after) =>
    let names := if a.newName ∈ m.aliases then m.aliases else m.aliases ++ [a.newName]
    { n with methods := before ++ { m with aliases := names } :: after }

end Namespace

namespace StubFile

def note? (f : StubFile) (l : Located) : Option StubFile :=
  match l.statement with
  | .aliasGlobal newName oldName =>
    some { f with globals := f.globals ++
      [{ name := newName, aliasOf := some oldName, documentation := l.documentation,
         line := l.line }] }
  | .assignGlobal name value =>
    some { f with globals := f.globals ++
      [{ name := name, value := value, documentation := l.documentation, line := l.line }] }
  | .unrecognized source =>
    some { f with diagnostics := f.diagnostics ++ [⟨source, l.line⟩] }
  | _ => none

end StubFile

/-- What has been read of a body: its own namespace, and the file so far with the namespaces of the
blocks in the body. -/
structure Contents where
  own : Namespace
  file : StubFile
  deriving DecidableEq, Repr

namespace StubFile

def enter (f : StubFile) (own : Namespace) : Contents := ⟨own, { f with namespaces := [] }⟩

def leave (f : StubFile) (c : Contents) : StubFile :=
  { c.file with namespaces := f.namespaces ++ c.own :: c.file.namespaces }

end StubFile

namespace Contents

def edit (c : Contents) (change : Namespace → Namespace) : Contents :=
  { c with own := change c.own }

def amend? (c : Contents) (s : LocalState) (l : Located) : Option (LocalState × Contents) :=
  match l.statement with
  | .define visibility source =>
    (s.methods? visibility source l.line l.documentation).map fun added =>
      (s, c.edit fun n => { n with methods := n.methods ++ added })
  | .setDefault visibility =>
    some ({ s with visibility := visibility, moduleFunctions := false }, c)
  | .setVisibility visibility names =>
    some (s, c.edit fun n => names.foldl (·.setVisibility s.receiver visibility) n)
  | .beginModuleFunctions => some ({ s with moduleFunctions := true }, c)
  | .makeModuleFunctions names => some (s, c.edit fun n => names.foldl (·.copyToSelf) n)
  | .alias newName oldName =>
    some (s, c.edit fun n =>
      { n with aliases := n.aliases ++ [⟨newName, oldName, s.receiver, l.line⟩] })
  | .mixin kind names => some (s, c.edit (·.addMixins s.receiver kind names))
  | .assignConstant name value =>
    some (s, c.edit fun n =>
      { n with constants := n.constants ++ [⟨name, value, l.documentation, l.line⟩] })
  | _ => (c.file.note? l).map fun f => (s, { c with file := f })

end Contents

namespace Body

/-- Reads a body. A block begins with a state of its own, and the state that it ends with is
forgotten. The names of blocks outside all blocks stand alone. -/
def read (nested : Bool) : Body → LocalState → Contents → Option (LocalState × Contents)
  | nil, s, c => some (s, c)
  | plain l rest, s, c => do
    let (s, c) ← c.amend? s l
    rest.read nested s c
  | block h line documentation inside rest, s, c => do
    let within := if nested then some c.own.qualifiedName else none
    let own := h.namespace within c.file.path line documentation
    let (_, d) ← inside.read true {} (c.file.enter own)
    rest.read nested s { c with file := c.file.leave d }
  | singleton _ inside rest, s, c => do
    let (_, d) ← inside.read true { receiver := .singleton } c
    rest.read nested s d

def implicitClass (path : String) : Namespace :=
  { kind := .klass, name := "Object", qualifiedName := "Object", path := path, implicit := true }

/-- Reads what stands from the first definition outside all blocks on as the body of the implicit
class, in which methods are private. -/
def readImplicit (b : Body) (f : StubFile) : Option StubFile := do
  let (_, c) ← b.read false { visibility := .priv } (f.enter (implicitClass f.path))
  some (f.leave c)

/-- Reads a file after what has been read of it. Before the first definition outside all blocks,
blocks fill the file and the other statements add to it. -/
def readFile : Body → StubFile → Option StubFile
  | nil, f => some f
  | plain l rest, f =>
    match f.note? l with
    | some f => rest.readFile f
    | none => (plain l rest).readImplicit f
  | block h line documentation inside rest, f => do
    let own := h.namespace none f.path line documentation
    let (_, d) ← inside.read true {} (f.enter own)
    rest.readFile (f.leave d)
  | singleton line inside rest, f => (singleton line inside rest).readImplicit f

end Body

def StubFile.recordAliases (f : StubFile) : StubFile :=
  { f with namespaces := f.namespaces.map fun n => n.aliases.foldl (·.recordAlias) n }

def StubFile.readBlocks? (text path : String) : Option StubFile :=
  match bodies (statementsOf text) with
  | some [b] => (b.readFile { path := path }).map (·.recordAliases)
  | _ => none

end RubyIndex
