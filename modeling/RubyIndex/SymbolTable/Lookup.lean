import RubyIndex.SymbolTable.Ancestors
/-!
Finding methods: the one that a call reaches, all that a namespace answers to, and all of a name.
-/

namespace RubyIndex

structure MethodMatch where
  owner : String
  method : Method
  deriving DecidableEq, Repr

def keepFirst {α : Type} (key : α → String) : List α → List α
  | [] => []
  | a :: rest => a :: (keepFirst key rest).filter fun b => key b != key a

theorem mem_of_mem_keepFirst {α : Type} {key : α → String} {l : List α} {a : α}
    (h : a ∈ keepFirst key l) : a ∈ l := by
  induction l with
  | nil => simp [keepFirst] at h
  | cons b rest ih =>
    rcases List.mem_cons.1 h with rfl | h
    · exact List.mem_cons_self
    · exact List.mem_cons_of_mem _ (ih (List.mem_filter.1 h).1)

/-- Sorts by a text key. Items with equal keys keep their order. -/
def sortOn {α : Type} (key : α → String) (l : List α) : List α :=
  l.mergeSort fun a b => key a ≤ key b

def startsWith (start name : String) : Bool := start.toList.isPrefixOf name.toList

namespace SymbolTable

def resolveMethod? (t : SymbolTable) (name method : String) (receiver : Receiver) :
    Option MethodMatch :=
  (t.lookupChain name receiver).findSome? fun e => do
    let owner ← t.find? e.owner
    let found ← owner.findMethod? method e.receiver
    some ⟨owner.qualifiedName, found⟩

def sortedNamespaces (t : SymbolTable) : List Namespace := sortOn (·.qualifiedName) t.namespaces

def findMethods (t : SymbolTable) (name : String) : List MethodMatch :=
  t.sortedNamespaces.flatMap fun n =>
    (n.methods.filter (·.answersTo name)).map (⟨n.qualifiedName, ·⟩)

def entryMethods (t : SymbolTable) (e : LookupEntry) : List MethodMatch :=
  match t.find? e.owner with
  | none => []
  | some n => (n.methods.filter (·.receiver == e.receiver)).map (⟨n.qualifiedName, ·⟩)

/-- Every method that may be called, declared or inherited, sorted by name. Of the methods with
one name the nearest is listed. -/
def availableMethods (t : SymbolTable) (name : String) (receiver : Receiver) : List MethodMatch :=
  sortOn (·.method.name)
    (keepFirst (·.method.name) ((t.lookupChain name receiver).flatMap t.entryMethods))

structure Stats where
  classes : Nat
  modules : Nat
  methods : Nat
  constants : Nat
  globals : Nat
  deriving DecidableEq, Repr

def stats (t : SymbolTable) : Stats where
  classes := t.namespaces.countP (·.isClass)
  modules := t.namespaces.countP (!·.isClass)
  methods := (t.namespaces.flatMap (·.methods)).length
  constants := (t.namespaces.flatMap (·.constants)).length
  globals := t.globals.length

end SymbolTable

end RubyIndex
