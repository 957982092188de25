import RubyIndex.Proofs.MergedDeclarations

/-! The symbol table of a list of files against the log of their declarations: its names, its merged
namespaces, its conflicts, its global variables and its counts are read off the log. -/
namespace RubyIndex

def mergeAll : List Namespace → Option Namespace
  | [] => none
  | first :: later => some (later.foldl Namespace.merge first)

theorem mergeAll_concat (declarations : List Namespace) (n : Namespace) :
    mergeAll (declarations ++ [n]) = some ((mergeAll declarations).elim n (·.merge n)) := by
  cases declarations with
  | nil => rfl
  | cons first later => simp [mergeAll]

theorem mergeAll_merged (first : Namespace) (later : List Namespace) :
    ∃ n, mergeAll (first :: later) = some n ∧ MergedFrom first later n :=
  ⟨_, rfl, by simpa using foldl_merged (merged_first first) later⟩

theorem superclass_mergeAll (declarations : List Namespace) :
    (mergeAll declarations).bind (·.superclass) = declarations.findSome? (·.superclass) := by
  cases declarations with
  | nil => rfl
  | cons first later =>
    obtain ⟨n, hn, merged⟩ := mergeAll_merged first later
    rw [hn, ← merged.superclass]
    rfl

/-- The conflict of a declaration with the first superclass that an earlier one names. -/
def conflictAfter (earlier : List Namespace) (n : Namespace) : Option SuperclassConflict := do
  let superclass ← n.superclass
  let existing ← (earlier.filter (·.qualifiedName == n.qualifiedName)).findSome? (·.superclass)
  if superclass = existing then none
  else some ⟨n.qualifiedName, superclass, existing, n.path, n.line⟩

theorem conflict?_mergeAll (earlier : List Namespace) (n : Namespace) :
    ((mergeAll (earlier.filter (·.qualifiedName == n.qualifiedName))).bind (·.conflict? n)) =
      conflictAfter earlier n := by
  unfold conflictAfter
  rw [← superclass_mergeAll]
  cases mergeAll (earlier.filter (·.qualifiedName == n.qualifiedName)) with
  | none => cases n.superclass <;> rfl
  | some first =>
    simp only [Option.bind_some, Namespace.conflict?]
    cases first.superclass <;> cases n.superclass <;> rfl

theorem conflictAfter_eq_some_iff {earlier : List Namespace} {n : Namespace}
    {c : SuperclassConflict} : conflictAfter earlier n = some c ↔
      n.superclass = some c.superclass ∧
        (earlier.filter (·.qualifiedName == n.qualifiedName)).findSome? (·.superclass) =
          some c.existing ∧
        c.superclass ≠ c.existing ∧ c.owner = n.qualifiedName ∧ c.path = n.path ∧
        c.line = n.line := by
  unfold conflictAfter
  constructor
  · intro conflict
    obtain ⟨superclass, named, conflict⟩ := Option.bind_eq_some_iff.mp conflict
    obtain ⟨existing, first, conflict⟩ := Option.bind_eq_some_iff.mp conflict
    split at conflict
    · cases conflict
    · next different =>
      cases conflict
      exact ⟨named, first, different, rfl, rfl, rfl⟩
  · obtain ⟨owner, superclass, existing, path, line⟩ := c
    rintro ⟨named, first, different, rfl, rfl, rfl⟩
    simp [named, first, different]

def conflictsFrom (earlier : List Namespace) : List Namespace → List SuperclassConflict
  | [] => []
  | n :: rest => (conflictAfter earlier n).toList ++ conflictsFrom (earlier ++ [n]) rest

theorem conflictsFrom_concat (earlier log : List Namespace) (n : Namespace) :
    conflictsFrom earlier (log ++ [n]) =
      conflictsFrom earlier log ++ (conflictAfter (earlier ++ log) n).toList := by
  induction log generalizing earlier with
  | nil => simp [conflictsFrom]
  | cons m log ih => simp [conflictsFrom, ih]

/-- The conflicts are those of each declaration with what has been declared before it. -/
theorem mem_conflictsFrom_iff {earlier log : List Namespace} {c : SuperclassConflict} :
    c ∈ conflictsFrom earlier log ↔ ∃ before n after, log = before ++ n :: after ∧
      conflictAfter (earlier ++ before) n = some c := by
  induction log generalizing earlier with
  | nil => simp [conflictsFrom]
  | cons m rest ih =>
    rw [conflictsFrom, List.mem_append, Option.mem_toList, ih]
    constructor
    · rintro (own | ⟨before, n, after, rfl, conflict⟩)
      · exact ⟨[], m, rest, rfl, by simpa using own⟩
      · exact ⟨m :: before, n, after, rfl, by simpa using conflict⟩
    · rintro ⟨before, n, after, eq, conflict⟩
      rcases List.cons_eq_append_iff.mp eq with ⟨rfl, eq⟩ | ⟨before, rfl, rfl⟩
      · cases eq
        exact .inl (by simpa using conflict)
      · exact .inr ⟨before, n, after, rfl, by simpa using conflict⟩

/-- A conflict is one of a declaration that names a superclass, and stands where it does. -/
theorem mem_conflictsFrom {earlier log : List Namespace} {c : SuperclassConflict}
    (h : c ∈ conflictsFrom earlier log) : ∃ n ∈ log, n.superclass = some c.superclass ∧
      c.path = n.path ∧ c.line = n.line := by
  obtain ⟨before, n, after, rfl, conflict⟩ := mem_conflictsFrom_iff.mp h
  obtain ⟨named, -, -, -, path, line⟩ := conflictAfter_eq_some_iff.mp conflict
  exact ⟨n, by simp, named, path, line⟩

namespace SymbolTable

variable {t : SymbolTable}

theorem mem_names_iff {name : String} : name ∈ t.names ↔ (t.find? name).isSome = true := by
  simp [names, find?]

theorem addNamespace_absent {n : Namespace} (absent : t.find? n.qualifiedName = none) :
    t.addNamespace n =
      { t with namespaces := t.namespaces ++ [n], declared := t.declared ++ [n] } := by
  rw [addNamespace, absent]

/-- A declaration of a name that the table has replaces the one entry of that name. -/
theorem addNamespace_found {n first : Namespace} (distinct : t.names.Nodup)
    (found : t.find? n.qualifiedName = some first) : ∃ before after,
      t.namespaces = before ++ first :: after ∧
        (∀ m ∈ before ++ after, m.qualifiedName ≠ n.qualifiedName) ∧
        t.addNamespace n =
          { t with
            namespaces := before ++ first.merge n :: after
            declared := t.declared ++ [n]
            conflicts := t.conflicts ++ (first.conflict? n).toList } := by
  obtain ⟨_, before, after, eq, hb⟩ := List.find?_eq_some_iff_append.mp found
  have hq := qualifiedName_of_find? found
  rw [names, eq, List.map_append, List.map_cons, List.nodup_middle, List.nodup_cons] at distinct
  have others : ∀ m ∈ before ++ after, m.qualifiedName ≠ n.qualifiedName := by
    intro m hm he
    rw [← List.map_append, hq, ← he] at distinct
    exact distinct.1 (List.mem_map_of_mem hm)
  refine ⟨before, after, eq, others, ?_⟩
  have keep : ∀ l : List Namespace, (∀ m ∈ l, m.qualifiedName ≠ n.qualifiedName) →
      l.map (fun m => if m.qualifiedName = n.qualifiedName then first.merge n else m) = l := by
    intro l hl
    exact (List.map_congr_left fun m hm => if_neg (hl m hm)).trans (List.map_id l)
  rw [addNamespace, found]
  simp only [eq, List.map_append, List.map_cons, hq, if_true,
    keep before fun m hm => others m (List.mem_append_left _ hm),
    keep after fun m hm => others m (List.mem_append_right _ hm)]

theorem find?_addNamespace (distinct : t.names.Nodup) (n : Namespace) (name : String) :
    (t.addNamespace n).find? name =
      if n.qualifiedName = name then some ((t.find? name).elim n (·.merge n))
      else t.find? name := by
  cases found : t.find? n.qualifiedName with
  | none =>
    rw [addNamespace_absent found]
    by_cases h : n.qualifiedName = name
    · subst h
      rw [if_pos rfl, found]
      unfold find? at found ⊢
      simp [List.find?_append, found]
    · rw [if_neg h]
      simp [find?, List.find?_append, h]
  | some first =>
    obtain ⟨before, after, eq, others, added⟩ := addNamespace_found distinct found
    have hq := qualifiedName_of_find? found
    rw [added]
    by_cases h : n.qualifiedName = name
    · subst h
      rw [if_pos rfl, found]
      have none : before.find? (·.qualifiedName == n.qualifiedName) = none :=
        List.find?_eq_none.mpr fun m hm => by simpa using others m (List.mem_append_left _ hm)
      simp [find?, List.find?_append, none, hq]
    · rw [if_neg h]
      simp [find?, eq, List.find?_append, hq, h]

theorem names_addNamespace (distinct : t.names.Nodup) (n : Namespace) :
    (t.addNamespace n).names =
      if n.qualifiedName ∈ t.names then t.names else t.names ++ [n.qualifiedName] := by
  cases found : t.find? n.qualifiedName with
  | none =>
    rw [if_neg (by simp [mem_names_iff, found]), addNamespace_absent found]
    simp [names]
  | some first =>
    obtain ⟨before, after, eq, _, added⟩ := addNamespace_found distinct found
    rw [if_pos (by simp [mem_names_iff, found]), added]
    simp [names, eq]

theorem declared_addNamespace (t : SymbolTable) (n : Namespace) :
    (t.addNamespace n).declared = t.declared ++ [n] := by
  unfold addNamespace; split <;> rfl

theorem globals_addNamespace (t : SymbolTable) (n : Namespace) :
    (t.addNamespace n).globals = t.globals := by
  unfold addNamespace; split <;> rfl

theorem conflicts_addNamespace (t : SymbolTable) (n : Namespace) :
    (t.addNamespace n).conflicts =
      t.conflicts ++ ((t.find? n.qualifiedName).bind (·.conflict? n)).toList := by
  unfold addNamespace; split <;> simp_all

/-- Members are counted once for each declaration that brings them. -/
theorem length_members_addNamespace {α : Type} (members : Namespace → List α)
    (added : ∀ first later : Namespace,
      (members (first.merge later)).length = (members first).length + (members later).length)
    (distinct : t.names.Nodup) (n : Namespace) :
    ((t.addNamespace n).namespaces.flatMap members).length =
      (t.namespaces.flatMap members).length + (members n).length := by
  cases found : t.find? n.qualifiedName with
  | none => rw [addNamespace_absent found]; simp
  | some first =>
    obtain ⟨before, after, eq, _, result⟩ := addNamespace_found distinct found
    rw [result, eq]
    simp only [List.flatMap_append, List.flatMap_cons, List.length_append, added]
    omega

/-- What a table holds that has been built from a log of declarations and of global variables. -/
structure Logged (t : SymbolTable) (log : List Namespace) (globals : List GlobalVariable) :
    Prop where
  declared : t.declared = log
  names : t.names = keepFirst id (log.map (·.qualifiedName))
  found : ∀ name, t.find? name = mergeAll (log.filter (·.qualifiedName == name))
  methods : (t.namespaces.flatMap (·.methods)).length = (log.flatMap (·.methods)).length
  constants : (t.namespaces.flatMap (·.constants)).length = (log.flatMap (·.constants)).length
  conflicts : t.conflicts = conflictsFrom [] log
  globals : t.globals = keepFirst (·.name) globals

theorem logged_empty : Logged {} [] [] := by
  constructor <;> simp [names, find?, keepFirst, mergeAll, conflictsFrom]

namespace Logged

variable {log : List Namespace} {globals : List GlobalVariable}

theorem distinct (h : Logged t log globals) : t.names.Nodup := by
  rw [h.names]
  simpa using nodup_map_keepFirst id (log.map (·.qualifiedName))

theorem add_namespace (h : Logged t log globals) (n : Namespace) :
    Logged (t.addNamespace n) (log ++ [n]) globals := by
  have distinct := h.distinct
  constructor
  case declared => rw [declared_addNamespace, h.declared]
  case names =>
    rw [names_addNamespace distinct, List.map_append, List.map_singleton, keepFirst_concat,
      h.names]
    simp only [mem_keepFirst_id, List.map_id, id]
  case found =>
    intro name
    rw [find?_addNamespace distinct, h.found, List.filter_append]
    by_cases hn : n.qualifiedName = name
    · rw [if_pos hn, List.filter_cons_of_pos (by simpa using hn), List.filter_nil,
        mergeAll_concat]
    · rw [if_neg hn, List.filter_cons_of_neg (by simpa using hn), List.filter_nil,
        List.append_nil]
  case methods =>
    rw [length_members_addNamespace _ length_methods_merge distinct, h.methods]
    simp
  case constants =>
    rw [length_members_addNamespace _ (by simp [merge_eq]) distinct, h.constants]
    simp
  case conflicts =>
    rw [conflicts_addNamespace, conflictsFrom_concat, h.conflicts, h.found, conflict?_mergeAll,
      List.nil_append]
  case globals => rw [globals_addNamespace, h.globals]

theorem add_global (h : Logged t log globals) (g : GlobalVariable) :
    Logged (t.addGlobal g) log (globals ++ [g]) := by
  have known : t.globals.any (·.name == g.name) = true ↔ g.name ∈ globals.map (·.name) := by
    rw [h.globals, ← mem_map_keepFirst]
    simp
  unfold addGlobal
  split
  case isTrue old =>
    exact { h with globals := by rw [keepFirst_concat, if_pos (known.mp old), h.globals] }
  case isFalse new =>
    exact { h with
      found := h.found
      globals := by
        rw [keepFirst_concat, if_neg fun hm => new (known.mpr hm), ← h.globals] }

theorem add_namespaces (h : Logged t log globals) (more : List Namespace) :
    Logged (more.foldl addNamespace t) (log ++ more) globals := by
  induction more generalizing t log with
  | nil => simpa using h
  | cons n more ih => simpa using ih (h.add_namespace n)

theorem add_globals (h : Logged t log globals) (more : List GlobalVariable) :
    Logged (more.foldl addGlobal t) log (globals ++ more) := by
  induction more generalizing t globals with
  | nil => simpa using h
  | cons g more ih => simpa using ih (h.add_global g)

theorem add_files (h : Logged t log globals) (files : List StubFile) :
    Logged (files.foldl addFile t) (log ++ files.flatMap (·.namespaces))
      (globals ++ files.flatMap (·.globals)) := by
  induction files generalizing t log globals with
  | nil => simpa using h
  | cons f files ih =>
    have added := ih ((h.add_namespaces f.namespaces).add_globals f.globals)
    simpa [addFile] using added

end Logged

theorem logged_ofFiles (files : List StubFile) :
    Logged (ofFiles files) (files.flatMap (·.namespaces)) (files.flatMap (·.globals)) := by
  simpa [ofFiles] using logged_empty.add_files files

theorem mem_declarations_iff {files : List StubFile} {name : String} {d : Namespace} :
    d ∈ (ofFiles files).declarations name ↔
      (∃ f ∈ files, d ∈ f.namespaces) ∧ d.qualifiedName = name := by
  rw [declarations, (logged_ofFiles files).declared, List.mem_filter, List.mem_flatMap, beq_iff_eq]

/-- The table of a list of files is the fold of the log of their declarations. -/
theorem ofFiles_folds_log (files : List StubFile) :
    (ofFiles files).declared = files.flatMap (·.namespaces) ∧
      (ofFiles files).names = keepFirst id ((files.flatMap (·.namespaces)).map (·.qualifiedName)) ∧
      (∀ name, name ∈ (ofFiles files).names ↔ (ofFiles files).declarations name ≠ []) ∧
      (∀ name first later, (ofFiles files).declarations name = first :: later →
        ∃ n, (ofFiles files).find? name = some n ∧ n.qualifiedName = name ∧
          MergedFrom first later n) ∧
      (ofFiles files).conflicts = conflictsFrom [] (files.flatMap (·.namespaces)) ∧
      (ofFiles files).globals = keepFirst (·.name) (files.flatMap (·.globals)) ∧
      (ofFiles files).stats.classes + (ofFiles files).stats.modules =
        (ofFiles files).names.length ∧
      (ofFiles files).stats.methods =
        ((files.flatMap (·.namespaces)).flatMap (·.methods)).length ∧
      (ofFiles files).stats.constants =
        ((files.flatMap (·.namespaces)).flatMap (·.constants)).length ∧
      (ofFiles files).stats.globals = (keepFirst (·.name) (files.flatMap (·.globals))).length := by
  have h := logged_ofFiles files
  refine ⟨h.declared, h.names, ?_, ?_, h.conflicts, h.globals, ?_, h.methods, h.constants,
    congrArg List.length h.globals⟩
  · intro name
    rw [mem_names_iff, h.found, declarations, h.declared]
    cases (files.flatMap (·.namespaces)).filter (·.qualifiedName == name) <;> simp [mergeAll]
  · intro name first later eq
    obtain ⟨n, hn, merged⟩ := mergeAll_merged first later
    rw [declarations, h.declared] at eq
    have found : (ofFiles files).find? name = some n := by rw [h.found, eq, hn]
    exact ⟨n, found, qualifiedName_of_find? found, merged⟩
  · simp [stats, names, List.length_eq_countP_add_countP Namespace.isClass]

def objectDeclarations : List Namespace :=
  [{ kind := .klass, name := "Object", qualifiedName := "Object",
     methods := [{ name := "helper", visibility := .priv, line := 1 }], path := "a.rb",
     implicit := true },
   { kind := .klass, name := "Object", qualifiedName := "Object", superclass := some "BasicObject",
     included := ["Kernel"], path := "b.rb", line := 1 },
   { kind := .klass, name := "Object", qualifiedName := "Object", included := ["PP", "Kernel"],
     documentation := some "The root.", path := "c.rb", line := 2 }]

def objectFiles : List StubFile :=
  objectDeclarations.map fun n => { path := n.path, namespaces := [n] }

theorem object_folds_log : ∃ first later n, objectDeclarations = first :: later ∧
    (ofFiles objectFiles).find? "Object" = some n ∧ n.qualifiedName = "Object" ∧
    MergedFrom first later n := by
  obtain ⟨-, -, -, merged, -⟩ := ofFiles_folds_log objectFiles
  obtain ⟨n, found, name, reopened⟩ := merged "Object" _ _ rfl
  exact ⟨_, _, n, rfl, found, name, reopened⟩

end SymbolTable

end RubyIndex
