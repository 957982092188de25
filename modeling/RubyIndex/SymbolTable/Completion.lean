import RubyIndex.SymbolTable.Lookup
/-!
Completing the names of namespaces, members and global variables from their first characters.
-/

namespace RubyIndex

inductive SymbolKind where
  | klass
  | modul
  | method
  | constant
  | global
  deriving DecidableEq, Repr

def NamespaceKind.symbolKind : NamespaceKind → SymbolKind
  | .klass => .klass
  | .modul => .modul

structure Completion where
  name : String
  kind : SymbolKind
  detail : Option String := none
  owner : Option String := none
  documentation : Option String := none
  deriving DecidableEq, Repr

def MethodMatch.completions (m : MethodMatch) : List Completion :=
  (m.method.name :: m.method.aliases).map fun name =>
    ⟨name, .method, some m.method.signature, some m.owner, m.method.documentation⟩

def Namespace.constantCompletions (n : Namespace) : List Completion :=
  n.constants.map fun c =>
    ⟨c.name, .constant, some c.value, some n.qualifiedName, c.documentation⟩

namespace SymbolTable

def completeNamespaces (t : SymbolTable) (start : String) : List Completion :=
  (t.sortedNamespaces.filter fun n => startsWith (dropRoot start) n.qualifiedName).map fun n =>
    ⟨n.qualifiedName, n.kind.symbolKind, t.superclassOf n, none, n.documentation⟩

def ancestorConstants (t : SymbolTable) (name : String) : List Completion :=
  (t.ancestors name).flatMap fun a => ((t.find? a).map (·.constantCompletions)).getD []

/-- The methods of a namespace, and for a call on the namespace itself its constants. The first
item of a name stays, where methods come in the order of their names and before constants. -/
def completeMembers (t : SymbolTable) (name start : String) (receiver : Receiver)
    (includePrivate : Bool) : List Completion :=
  let methods := (t.availableMethods name receiver).filter fun m =>
    includePrivate || m.method.visibility != .priv
  let constants := if receiver = .singleton then t.ancestorConstants name else []
  let items := methods.flatMap (·.completions) ++ constants
  sortOn (·.name) (keepFirst (·.name) (items.filter fun i => startsWith start i.name))

/-- A start without the leading `$` is given one. -/
def completeGlobals (t : SymbolTable) (start : String) : List Completion :=
  let start := if startsWith "$" start then start else "$" ++ start
  ((sortOn (·.name) t.globals).filter fun g => startsWith start g.name).map fun g =>
    ⟨g.name, .global, some (g.aliasOf.getD g.value), none, g.documentation⟩

end SymbolTable

end RubyIndex
