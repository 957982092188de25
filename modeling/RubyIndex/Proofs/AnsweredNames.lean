import RubyIndex.Proofs.DeclarationLog
import RubyIndex.Proofs.ReadNamespaces

/-! The names that a merged namespace answers to, worked out from names alone. A declaration is read
with one pass over its alias statements, and each merge makes a pass over all statements so far. A
pass takes the statements in order, and one whose old name is not in use yet is passed over. -/
namespace RubyIndex

/-- The names in use after a pass over alias statements. Each brings its new name if its old name is
in use when the pass comes to it. -/
def namesAfter (receiver : Receiver) (names : List String) : List Alias → List String
  | [] => names
  | a :: rest =>
    namesAfter receiver
      (if a.receiver = receiver ∧ a.oldName ∈ names then a.newName :: names else names) rest

def Namespace.ownNames (n : Namespace) (receiver : Receiver) : List String :=
  namesAfter receiver ((n.methods.filter (·.receiver == receiver)).map (·.name)) n.aliases

/-- The names in use after further declarations have been merged into a namespace with these names
and alias statements. -/
def namesMerged (receiver : Receiver) (names : List String) (aliases : List Alias) :
    List Namespace → List String
  | [] => names
  | n :: later =>
    namesMerged receiver
      (namesAfter receiver (names ++ n.ownNames receiver) (aliases ++ n.aliases))
      (aliases ++ n.aliases) later

def namesInUse (receiver : Receiver) : List Namespace → List String
  | [] => []
  | first :: later => namesMerged receiver (first.ownNames receiver) first.aliases later

variable {receiver : Receiver} {names : List String}

theorem answered_applyAliases_iff {methods : List Method}
    (same : ∀ x, Answered methods receiver x ↔ x ∈ names) (aliases : List Alias) (x : String) :
    Answered (applyAliases methods aliases) receiver x ↔ x ∈ namesAfter receiver names aliases := by
  induction aliases generalizing methods names with
  | nil => exact same x
  | cons a rest ih =>
    rw [namesAfter]
    refine ih fun y => ?_
    rw [answered_record_iff, same, same]
    by_cases inUse : a.receiver = receiver ∧ a.oldName ∈ names
    · rw [if_pos inUse, List.mem_cons]
      tauto
    · rw [if_neg inUse]
      tauto

theorem answered_unaliased_iff {methods : List Method} (h : Unaliased methods) (x : String) :
    Answered methods receiver x ↔
      x ∈ (methods.filter (·.receiver == receiver)).map (·.name) := by
  simp only [Answered, List.mem_map, List.mem_filter, and_assoc]
  refine exists_congr fun m => and_congr_right fun hm => ?_
  simp [Method.reachedBy, Method.answersTo, h m hm]

theorem ownNames_recorded {n : Namespace} {methods : List Method}
    (recorded : n.methods = applyAliases methods n.aliases) :
    (n.methods.filter (·.receiver == receiver)).map (·.name) =
      (methods.filter (·.receiver == receiver)).map (·.name) := by
  have through (l : List Method) : (l.filter (·.receiver == receiver)).map (·.name) =
      ((l.map (·.declared)).filter (·.receiver == receiver)).map (·.name) := by
    rw [List.filter_map, List.map_map]
    rfl
  rw [through, through methods, recorded, map_declared_applyAliases]

theorem Namespace.Read.answered_iff {n : Namespace} (h : n.Read) (x : String) :
    Answered n.methods receiver x ↔ x ∈ n.ownNames receiver := by
  obtain ⟨methods, unaliased, recorded⟩ := h.recorded
  rw [ownNames, ownNames_recorded recorded, recorded]
  exact answered_applyAliases_iff (answered_unaliased_iff unaliased) n.aliases x

theorem answered_foldl_merge_iff {n : Namespace} {later : List Namespace}
    (same : ∀ x, Answered n.methods receiver x ↔ x ∈ names) (read : ∀ d ∈ later, d.Read)
    (x : String) :
    Answered (later.foldl Namespace.merge n).methods receiver x ↔
      x ∈ namesMerged receiver names n.aliases later := by
  induction later generalizing n names with
  | nil => exact same x
  | cons d later ih =>
    rw [List.forall_mem_cons] at read
    have merged : (n.merge d).aliases = n.aliases ++ d.aliases := by rw [merge_eq]
    rw [namesMerged, ← merged]
    refine ih (fun y => ?_) read.2
    rw [merged, merge_eq]
    refine answered_applyAliases_iff (fun z => ?_) _ y
    rw [answered_append, same, read.1.answered_iff, List.mem_append]

theorem answered_mergeAll_iff {declarations : List Namespace} {n : Namespace}
    (read : ∀ d ∈ declarations, d.Read) (merged : mergeAll declarations = some n) (x : String) :
    Answered n.methods receiver x ↔ x ∈ namesInUse receiver declarations := by
  cases declarations with
  | nil => cases merged
  | cons first later =>
    rw [List.forall_mem_cons] at read
    cases merged
    exact answered_foldl_merge_iff read.1.answered_iff read.2 x

def Namespace.Recorded (n : Namespace) : Prop :=
  ∃ methods, n.methods = applyAliases methods n.aliases

theorem Namespace.Recorded.foldl_merge {n : Namespace} (h : n.Recorded) (later : List Namespace) :
    (later.foldl Namespace.merge n).Recorded := by
  induction later generalizing n with
  | nil => exact h
  | cons d later ih => exact ih ⟨n.methods ++ d.methods, by rw [merge_eq]⟩

/-- The new name of an alias is answered to if its old name is the name of a method. -/
theorem Namespace.Recorded.answered_alias {n : Namespace} (h : n.Recorded) {a : Alias}
    (ha : a ∈ n.aliases) {m : Method} (hm : m ∈ n.methods) (receiver : m.receiver = a.receiver)
    (name : m.name = a.oldName) : Answered n.methods a.receiver a.newName := by
  obtain ⟨methods, recorded⟩ := h
  obtain ⟨before, after, eq⟩ := List.mem_iff_append.mp ha
  rw [recorded] at hm
  have named := answered_applyAliases (answered_of_mem_applyAliases hm) before
  rw [receiver, name] at named
  rw [recorded, eq]
  exact answered_of_pass named after

theorem recorded_mergeAll {declarations : List Namespace} {n : Namespace}
    (read : ∀ d ∈ declarations, d.Read) (merged : mergeAll declarations = some n) :
    n.Recorded := by
  cases declarations with
  | nil => cases merged
  | cons first later =>
    cases merged
    obtain ⟨methods, -, recorded⟩ := (read first List.mem_cons_self).recorded
    exact Namespace.Recorded.foldl_merge ⟨methods, recorded⟩ later

namespace SymbolTable

variable {files : List StubFile}

theorem read_declarations (parsed : ∀ f ∈ files, f.Parsed) (name : String) :
    ∀ d ∈ (ofFiles files).declarations name, d.Read := by
  intro d hd
  obtain ⟨⟨f, hf, member⟩, -⟩ := mem_declarations_iff.mp hd
  exact (parsed f hf).read d member

theorem find?_ofFiles (files : List StubFile) (name : String) :
    (ofFiles files).find? name = mergeAll ((ofFiles files).declarations name) := by
  rw [declarations, (logged_ofFiles files).declared, (logged_ofFiles files).found]

end SymbolTable

end RubyIndex
