import RubyIndex.StubFile
/-!
The symbol table of a set of stub files. A namespace that is declared more than once is merged from
its declarations in the order in which they are added: members are appended, mixins that are new
are appended, and the first superclass and the first documentation stay.
-/

namespace RubyIndex

/-- A declaration that reopens a class with another superclass than the first one. -/
structure SuperclassConflict where
  owner : String
  superclass : String
  existing : String
  path : String
  line : Nat
  deriving DecidableEq, Repr

/-- Merged namespaces and global variables, each listed once in order of first declaration, and
every declaration of a namespace as it was added. -/
structure SymbolTable where
  namespaces : List Namespace := []
  declared : List Namespace := []
  globals : List GlobalVariable := []
  conflicts : List SuperclassConflict := []
  deriving DecidableEq, Repr

def addNew (names more : List String) : List String :=
  more.foldl (fun names name => if names.contains name then names else names ++ [name]) names

@[simp] theorem addNew_nil (names : List String) : addNew names [] = names := rfl

namespace Namespace

/-- Adds a later declaration. The kind and the place of an implicit namespace are those of its
first explicit declaration. -/
def merge (first later : Namespace) : Namespace :=
  let aliases := first.aliases ++ later.aliases
  let merged : Namespace :=
    { first with
      superclass := first.superclass.or later.superclass
      included := addNew first.included later.included
      extended := addNew first.extended later.extended
      prepended := addNew first.prepended later.prepended
      constants := first.constants ++ later.constants
      methods := applyAliases (first.methods ++ later.methods) aliases
      aliases := aliases
      documentation := first.documentation.or later.documentation }
  if first.implicit && !later.implicit then
    { merged with kind := later.kind, path := later.path, line := later.line, implicit := false }
  else merged

@[simp] theorem qualifiedName_merge (first later : Namespace) :
    (first.merge later).qualifiedName = first.qualifiedName := by
  unfold merge; split <;> rfl

def conflict? (first later : Namespace) : Option SuperclassConflict :=
  match first.superclass, later.superclass with
  | some existing, some superclass =>
    if superclass = existing then none
    else some ⟨later.qualifiedName, superclass, existing, later.path, later.line⟩
  | _, _ => none

end Namespace

namespace SymbolTable

def find? (t : SymbolTable) (name : String) : Option Namespace :=
  t.namespaces.find? (·.qualifiedName == name)

def has (t : SymbolTable) (name : String) : Bool := (t.find? name).isSome

theorem qualifiedName_of_find? {t : SymbolTable} {name : String} {n : Namespace}
    (h : t.find? name = some n) : n.qualifiedName = name := by
  simpa using List.find?_some h

theorem mem_of_find? {t : SymbolTable} {name : String} {n : Namespace}
    (h : t.find? name = some n) : n ∈ t.namespaces := List.mem_of_find?_eq_some h

def names (t : SymbolTable) : List String := t.namespaces.map (·.qualifiedName)

def declarations (t : SymbolTable) (name : String) : List Namespace :=
  t.declared.filter (·.qualifiedName == name)

def addNamespace (t : SymbolTable) (n : Namespace) : SymbolTable :=
  match t.find? n.qualifiedName with
  | none => { t with namespaces := t.namespaces ++ [n], declared := t.declared ++ [n] }
  | some first =>
    { t with
      namespaces := t.namespaces.map fun m =>
        if m.qualifiedName = n.qualifiedName then first.merge n else m
      declared := t.declared ++ [n]
      conflicts := t.conflicts ++ (first.conflict? n).toList }

def addGlobal (t : SymbolTable) (g : GlobalVariable) : SymbolTable :=
  if t.globals.any (·.name == g.name) then t else { t with globals := t.globals ++ [g] }

def addFile (t : SymbolTable) (f : StubFile) : SymbolTable :=
  f.globals.foldl addGlobal (f.namespaces.foldl addNamespace t)

def ofFiles (files : List StubFile) : SymbolTable := files.foldl addFile {}

def get? (t : SymbolTable) (name : String) : Option Namespace := t.find? (dropRoot name)

end SymbolTable

end RubyIndex
