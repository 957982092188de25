import RubyIndex.Parameter
/-!
What stubs declare: methods, constants, aliases, global variables, and the classes and modules
that hold them.
-/

namespace RubyIndex

inductive Receiver where
  | inst
  | singleton
  deriving DecidableEq, Repr

inductive Visibility where
  | pub
  | prot
  | priv
  deriving DecidableEq, Repr

inductive NamespaceKind where
  | klass
  | modul
  deriving DecidableEq, Repr

structure Method where
  name : String
  receiver : Receiver := .inst
  visibility : Visibility := .pub
  parameters : List Parameter := []
  documentation : Option String := none
  aliases : List String := []
  line : Nat := 0
  deriving DecidableEq, Repr

def placeholder : String := "_"

structure Constant where
  name : String
  value : String := placeholder
  documentation : Option String := none
  line : Nat := 0
  deriving DecidableEq, Repr

structure Alias where
  newName : String
  oldName : String
  receiver : Receiver := .inst
  line : Nat := 0
  deriving DecidableEq, Repr

/-- The name includes the leading `$`. -/
structure GlobalVariable where
  name : String
  value : String := placeholder
  documentation : Option String := none
  aliasOf : Option String := none
  line : Nat := 0
  deriving DecidableEq, Repr

/-- A class or module with its members. The superclass and the mixins are named as the stub writes
them. A namespace is implicit if only definitions outside every class and module imply it. -/
structure Namespace where
  kind : NamespaceKind
  name : String
  qualifiedName : String
  superclass : Option String := none
  included : List String := []
  extended : List String := []
  prepended : List String := []
  constants : List Constant := []
  methods : List Method := []
  aliases : List Alias := []
  documentation : Option String := none
  path : String
  line : Nat := 0
  implicit : Bool := false
  deriving DecidableEq, Repr

namespace Method

def isSingleton (m : Method) : Bool := m.receiver == .singleton

def signature (m : Method) : String :=
  let name := (if m.isSingleton then "self." else "") ++ m.name
  if m.parameters.isEmpty then name else s!"{name}({Parameter.renderList m.parameters})"

/-- `Owner#name` for instance methods, `Owner.name` for singleton methods. -/
def qualifiedName (m : Method) (owner : String) : String :=
  owner ++ (if m.isSingleton then "." else "#") ++ m.name

def answersTo (m : Method) (name : String) : Bool := m.name == name || m.aliases.contains name

def reachedBy (m : Method) (name : String) (receiver : Receiver) : Bool :=
  m.receiver == receiver && m.answersTo name

def withAlias (m : Method) (name : String) : Method :=
  if m.aliases.contains name then m else { m with aliases := m.aliases ++ [name] }

end Method

def Constant.isPlaceholder (c : Constant) : Bool := c.value == placeholder

def updateFirst (name : String) (receiver : Receiver) (change : Method → Method) :
    List Method → List Method
  | [] => []
  | m :: rest =>
    if m.reachedBy name receiver then change m :: rest
    else m :: updateFirst name receiver change rest

def Alias.record (a : Alias) (methods : List Method) : List Method :=
  updateFirst a.oldName a.receiver (·.withAlias a.newName) methods

/-- Records aliases in order, so that one may name an alias that an earlier one has recorded. -/
def applyAliases (methods : List Method) (aliases : List Alias) : List Method :=
  aliases.foldl (fun ms a => a.record ms) methods

@[simp] theorem applyAliases_nil (methods : List Method) : applyAliases methods [] = methods := rfl

theorem applyAliases_append (methods : List Method) (first second : List Alias) :
    applyAliases methods (first ++ second) =
      applyAliases (applyAliases methods first) second := by
  simp [applyAliases]

/-- Splits a qualified name at `::`. `current` is the segment read so far, backwards. -/
def segmentsOfName (current : List Char) : List Char → List (List Char)
  | [] => [current.reverse]
  | ':' :: ':' :: rest => current.reverse :: segmentsOfName [] rest
  | c :: rest => segmentsOfName (c :: current) rest

def nameSegments (name : String) : List String :=
  (segmentsOfName [] name.toList).map String.ofList

def joinSegments (segments : List String) : String := "::".intercalate segments

/-- The name after a leading `::`, which makes a reference absolute. -/
def absolute? (name : String) : Option String :=
  ("::".toList.isPrefixOf? name.toList).map String.ofList

def dropRoot (name : String) : String := (absolute? name).getD name

namespace Namespace

def isClass (n : Namespace) : Bool := n.kind == .klass

def isTopLevel (n : Namespace) : Bool := (nameSegments n.qualifiedName).length == 1

def scope (n : Namespace) : Option String :=
  if n.isTopLevel then none else some (joinSegments (nameSegments n.qualifiedName).dropLast)

def instanceMethods (n : Namespace) : List Method := n.methods.filter (!·.isSingleton)

def singletonMethods (n : Namespace) : List Method := n.methods.filter (·.isSingleton)

def findMethod? (n : Namespace) (name : String) (receiver : Receiver) : Option Method :=
  n.methods.find? (·.reachedBy name receiver)

def findConstant? (n : Namespace) (name : String) : Option Constant :=
  n.constants.find? (·.name == name)

end Namespace

end RubyIndex
