import RubyIndex.SymbolTable.Completion
import RubyIndex.Text.Blank
import RubyIndex.Text.Find
import RubyIndex.Text.Lowercase
/-!
Searching names and documentation for keywords, in any case. Symbols whose name matches come
first, then those that match more keywords.
-/

namespace RubyIndex

structure Searchable where
  kind : SymbolKind
  qualifiedName : String
  documentation : Option String
  deriving DecidableEq, Repr

structure SearchHit where
  kind : SymbolKind
  qualifiedName : String
  nameMatch : Bool
  keywords : List String
  documentation : Option String
  deriving DecidableEq, Repr

/-- The distinct keywords in lower case, sorted. Blank ones are left out. -/
def normalKeywords (keywords : List String) : List String :=
  let lowered := (keywords.filter fun k => !Text.blankText k.toList).map fun k =>
    String.ofList (Text.lower k.toList)
  sortOn id (keepFirst id lowered)

def occurring (keywords : List String) (text : String) : List String :=
  let lowered := Text.lower text.toList
  keywords.filter fun k => Text.occursIn k.toList lowered

def Searchable.hit? (s : Searchable) (keywords : List String) (requireAll : Bool) :
    Option SearchHit :=
  let inName := occurring keywords s.qualifiedName
  let inDocumentation := (s.documentation.map (occurring keywords)).getD []
  let found := keywords.filter fun k => inName.contains k || inDocumentation.contains k
  if found.isEmpty || (requireAll && found.length < keywords.length) then none
  else some ⟨s.kind, s.qualifiedName, !inName.isEmpty, found, s.documentation⟩

def Namespace.searchables (n : Namespace) : List Searchable :=
  ⟨n.kind.symbolKind, n.qualifiedName, n.documentation⟩ ::
    n.methods.map (fun m => ⟨.method, m.qualifiedName n.qualifiedName, m.documentation⟩) ++
    n.constants.map fun c => ⟨.constant, s!"{n.qualifiedName}::{c.name}", c.documentation⟩

/-- The order of hits: hits in a name first, then more keywords, then the name. -/
def SearchHit.before (a b : SearchHit) : Bool :=
  if a.nameMatch != b.nameMatch then a.nameMatch
  else if a.keywords.length != b.keywords.length then b.keywords.length < a.keywords.length
  else a.qualifiedName ≤ b.qualifiedName

namespace SymbolTable

/-- All symbols in table order: each namespace with its methods and constants, and then the global
variables. -/
def searchables (t : SymbolTable) : List Searchable :=
  t.namespaces.flatMap (·.searchables) ++ t.globals.map fun g => ⟨.global, g.name, g.documentation⟩

def search (t : SymbolTable) (keywords : List String) (requireAll : Bool) : List SearchHit :=
  let normal := normalKeywords keywords
  (t.searchables.filterMap (·.hit? normal requireAll)).mergeSort SearchHit.before

end SymbolTable

end RubyIndex
