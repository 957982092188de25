import RubyIndex.SymbolTable.Merge
/-!
Resolving references to namespaces the way Ruby does it lexically: `Error` written inside
`OpenSSL::Cipher` is `OpenSSL::Cipher::Error`, `OpenSSL::Error` or `Error`, the first that exists.
-/

namespace RubyIndex

/-- The names that a relative reference may mean inside a scope of these segments, innermost
first. -/
def candidates (segments : List String) (name : String) : List String :=
  ((List.range (segments.length + 1)).reverse).map fun depth =>
    joinSegments (segments.take depth ++ [name])

def scopeSegments : Option String → List String
  | none => []
  | some scope => if scope = "" then [] else nameSegments (dropRoot scope)

namespace SymbolTable

/-- The namespace that a reference means. One that begins with `::` is not looked for anywhere
else. -/
def resolve? (t : SymbolTable) (name : String) (scope : Option String) : Option String :=
  match absolute? name with
  | some name => if t.has name then some name else none
  | none => (candidates (scopeSegments scope) name).find? t.has

theorem has_of_resolve? {t : SymbolTable} {name : String} {scope : Option String} {r : String}
    (h : t.resolve? name scope = some r) : t.has r = true := by
  unfold resolve? at h
  split at h
  · split at h
    · next hn => simpa using (Option.some.inj h) ▸ hn
    · simp at h
  · exact List.find?_some h

def rootClass : String := "BasicObject"

def defaultSuperclass : String := "Object"

/-- The superclass of a class, as it is written if it is not in the table. -/
def superclassOf (t : SymbolTable) (n : Namespace) : Option String :=
  if !n.isClass || n.qualifiedName = rootClass then none
  else
    match n.superclass with
    | none => some (if n.qualifiedName = defaultSuperclass then rootClass else defaultSuperclass)
    | some name => some ((t.resolve? name n.scope).getD name)

def resolveMixin (t : SymbolTable) (n : Namespace) (name : String) : String :=
  (t.resolve? name (some n.qualifiedName)).getD name

end SymbolTable

end RubyIndex
