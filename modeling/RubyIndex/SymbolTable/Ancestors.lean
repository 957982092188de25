import RubyIndex.SymbolTable.Resolve
/-!
Where Ruby looks for a method: in the modules that a namespace prepends, in the namespace, in the
modules that it includes, the latest first, and then in its superclass in the same way. A call on
a class or module itself looks in the singleton classes along the superclasses, each with the
modules that it extends, and then in `Class` or `Module`. Both walks end on cyclic declarations
too, since no namespace is entered twice.
-/

namespace RubyIndex

/-- A step of a lookup: the methods of `owner` for a receiver. -/
structure LookupEntry where
  owner : String
  receiver : Receiver
  deriving DecidableEq, Repr

def LookupEntry.text (e : LookupEntry) : String :=
  match e.receiver with
  | .inst => e.owner
  | .singleton => s!"#<Class:{e.owner}>"

/-- What is left to do on the walk: enter a namespace, or list one whose prepended modules have
been walked. -/
inductive Visit where
  | enter (name : String)
  | list (name : String)
  deriving DecidableEq, Repr

namespace SymbolTable

def unvisited (t : SymbolTable) (visited : List String) : Nat :=
  t.namespaces.countP fun n => !visited.contains n.qualifiedName

theorem fresh_of_fresh_cons {visited : List String} {name : String} (n : Namespace)
    (h : (!(name :: visited).contains n.qualifiedName) = true) :
    (!visited.contains n.qualifiedName) = true := by
  simp only [List.contains_eq_mem, List.mem_cons, Bool.not_eq_true',
    decide_eq_false_iff_not] at *
  exact fun hn => h (.inr hn)

theorem unvisited_cons_le (t : SymbolTable) (visited : List String) (name : String) :
    t.unvisited (name :: visited) ≤ t.unvisited visited :=
  List.countP_mono_left fun n _ h => fresh_of_fresh_cons n h

theorem countP_lt_of_mem {α : Type} {p q : α → Bool} {l : List α} {x : α} (hx : x ∈ l)
    (hp : p x = false) (hq : q x = true) (h : ∀ y ∈ l, p y = true → q y = true) :
    l.countP p < l.countP q := by
  induction l with
  | nil => simp at hx
  | cons y l ih =>
    have le := List.countP_mono_left (l := l) fun z hz => h z (List.mem_cons_of_mem _ hz)
    rcases List.mem_cons.1 hx with rfl | hx
    · rw [List.countP_cons_of_neg (by simp [hp]), List.countP_cons_of_pos hq]
      omega
    · have lt := ih hx fun z hz => h z (List.mem_cons_of_mem _ hz)
      have hy := h y List.mem_cons_self
      have : (if p y = true then 1 else 0) ≤ if q y = true then 1 else 0 := by
        by_cases hpy : p y = true
        · simp [hpy, hy hpy]
        · simp [hpy]
      rw [List.countP_cons, List.countP_cons]
      omega

theorem unvisited_cons_lt {t : SymbolTable} {visited : List String} {name : String}
    {n : Namespace} (fresh : visited.contains name = false) (found : t.find? name = some n) :
    t.unvisited (name :: visited) < t.unvisited visited := by
  have hn := qualifiedName_of_find? found
  exact countP_lt_of_mem (mem_of_find? found) (by simp [hn])
    (by rw [hn]; simpa using fresh) fun m _ h => fresh_of_fresh_cons m h

def visits (t : SymbolTable) (n : Namespace) : List Visit :=
  n.prepended.reverse.map (fun m => .enter (t.resolveMixin n m)) ++
    .list n.qualifiedName :: n.included.reverse.map (fun m => .enter (t.resolveMixin n m)) ++
    (t.superclassOf n).toList.map .enter

/-- The namespaces that the walk lists. A namespace that is not in the table is listed at once. -/
def walk (t : SymbolTable) (visited : List String) : List Visit → List String
  | [] => []
  | .list name :: rest => name :: walk t visited rest
  | .enter name :: rest =>
    if _fresh : visited.contains name then walk t visited rest
    else
      match _found : t.find? name with
      | none => name :: walk t (name :: visited) rest
      | some n => walk t (name :: visited) (t.visits n ++ rest)
termination_by todo => (t.unvisited visited, todo.length)
decreasing_by
  · exact Prod.Lex.right _ (by simp)
  · exact Prod.Lex.right _ (by simp)
  · rcases Nat.lt_or_eq_of_le (t.unvisited_cons_le visited name) with h | h
    · exact Prod.Lex.left _ _ h
    · rw [h]; exact Prod.Lex.right _ (by simp)
  · exact Prod.Lex.left _ _ (unvisited_cons_lt (by simpa using _fresh) _found)

def ancestors (t : SymbolTable) (name : String) : List String := t.walk [] [.enter (dropRoot name)]

def addEntries (entries more : List LookupEntry) : List LookupEntry :=
  more.foldl (fun entries e => if entries.contains e then entries else entries ++ [e]) entries

def extensionEntries (t : SymbolTable) (n : Namespace) : List LookupEntry :=
  (n.extended.reverse.flatMap fun m => t.ancestors (t.resolveMixin n m)).map (⟨·, .inst⟩)

def walkSingletons (t : SymbolTable) (visited : List String) (entries : List LookupEntry)
    (name : String) : List LookupEntry :=
  if _fresh : visited.contains name then entries
  else
    let entries := addEntries entries [⟨name, .singleton⟩]
    match _found : t.find? name with
    | none => entries
    | some n =>
      let entries := addEntries entries (t.extensionEntries n)
      match t.superclassOf n with
      | none => entries
      | some superclass => walkSingletons t (name :: visited) entries superclass
termination_by t.unvisited visited
decreasing_by exact unvisited_cons_lt (by simpa using _fresh) _found

/-- The class of a class or module itself. What is not in the table counts as a class. -/
def metaclass (t : SymbolTable) (name : String) : String :=
  if (t.find? name).all (·.isClass) then "Class" else "Module"

def singletonAncestors (t : SymbolTable) (name : String) : List LookupEntry :=
  let name := dropRoot name
  addEntries (t.walkSingletons [] [] name)
    ((t.ancestors (t.metaclass name)).map (⟨·, .inst⟩))

def lookupChain (t : SymbolTable) (name : String) (receiver : Receiver) : List LookupEntry :=
  match receiver with
  | .singleton => t.singletonAncestors name
  | .inst => (t.ancestors name).map (⟨·, .inst⟩)

end SymbolTable

end RubyIndex
