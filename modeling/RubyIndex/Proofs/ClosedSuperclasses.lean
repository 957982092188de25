import RubyIndex.Proofs.EnclosingSuperclasses
import RubyIndex.Proofs.FindingPlaces

/-! Superclasses that are defined nowhere. The rule looks at the superclass of each declaration, and
lookup at the one of the merged namespace. That is the superclass of its first declaration with one,
and declarations of one name are in one scope. So lookup comes to no superclass that the rule would
not have reported. -/
namespace RubyIndex

namespace SymbolTable

variable {t : SymbolTable} {n : Namespace} {name superclass : String} {files : List StubFile}

/-- A namespace of the table, a class that Ruby brings along, or a name below a namespace of which
it brings along all classes. -/
def Knows (t : SymbolTable) (name : String) : Prop :=
  name ∈ t.names ∨ dropRoot name ∈ Lint.builtinSuperclasses ∨
    ∃ builtin ∈ Lint.builtinNamespaces, (builtin ++ "::").toList <+: (dropRoot name).toList

theorem knows_of_isBuiltin (h : Lint.isBuiltin name = true) : t.Knows name := by
  rw [Lint.isBuiltin, Bool.or_eq_true, List.contains_iff_mem, List.any_eq_true] at h
  rcases h with listed | ⟨builtin, hb, below⟩
  · exact Or.inr (Or.inl listed)
  · exact Or.inr (Or.inr ⟨builtin, hb, List.isPrefixOf_iff_prefix.mp below⟩)

theorem knows_of_resolve? {scope : Option String} (h : t.resolve? superclass scope = some name) :
    t.Knows name :=
  Or.inl (mem_names_iff.mpr (has_of_resolve? h))

theorem knows_default : t.Knows rootClass ∧ t.Knows defaultSuperclass :=
  ⟨knows_of_isBuiltin (by decide), knows_of_isBuiltin (by decide)⟩

/-- Lookup takes a name that the table does not know from the superclass as it is written. -/
theorem superclassOf_cases (h : t.superclassOf n = some superclass) :
    t.Knows superclass ∨
      n.superclass = some superclass ∧ t.resolve? superclass n.scope = none := by
  unfold superclassOf at h
  split at h
  · cases h
  · cases written : n.superclass with
    | none =>
      simp only [written, Option.some.injEq] at h
      subst h
      split
      · exact Or.inl knows_default.1
      · exact Or.inl knows_default.2
    | some name =>
      simp only [written, Option.some.injEq] at h
      cases resolved : t.resolve? name n.scope with
      | none =>
        rw [resolved, Option.getD_none] at h
        subst h
        exact Or.inr ⟨rfl, resolved⟩
      | some target =>
        rw [resolved, Option.getD_some] at h
        subst h
        exact Or.inl (knows_of_resolve? resolved)

theorem superclassOf_eq_none_iff (isClass : n.isClass = true) :
    t.superclassOf n = none ↔ n.qualifiedName = rootClass := by
  unfold superclassOf
  by_cases root : n.qualifiedName = rootClass
  · simp [root]
  · simp only [isClass, root, Bool.not_true, Bool.false_eq_true, decide_false, Bool.or_self,
      if_false, iff_false]
    cases n.superclass <;> simp

/-- The superclass of a merged namespace is the one of its first declaration that names one. -/
theorem declaring_superclass (member : n ∈ (ofFiles files).namespaces)
    (written : n.superclass = some superclass) :
    ∃ before d after, (ofFiles files).declarations n.qualifiedName = before ++ d :: after ∧
      (∀ e ∈ before, e.superclass = none) ∧ d.superclass = some superclass := by
  have found := find?_of_mem member
  rw [find?_ofFiles] at found
  have first := superclass_mergeAll ((ofFiles files).declarations n.qualifiedName)
  rw [found, Option.bind_some, written] at first
  obtain ⟨before, d, after, eq, named, none⟩ := List.findSome?_eq_some_iff.mp first.symm
  exact ⟨before, d, after, eq, none, named⟩

end SymbolTable

namespace Lint

def superclassFinding (s : Snapshot) (f : StubFile) (d : Namespace) (superclass : String) :
    Finding where
  rule := .unknownSuperclass
  path := s.relativePath f.path
  line := d.line
  owner := some d.qualifiedName
  message := s!"Superclass \x60{superclass}\x60 of {d.qualifiedName} is not defined"

theorem superclassFinding_mem_check {s : Snapshot} {f : StubFile} {d : Namespace}
    {superclass : String} (hf : f ∈ s.files) (hd : d ∈ f.namespaces)
    (named : d.superclass = some superclass)
    (unresolved : s.table.resolve? superclass d.scope = none)
    (foreign : ¬ isBuiltin superclass = true) :
    superclassFinding s f d superclass ∈ Rule.unknownSuperclass.check s := by
  refine List.mem_filterMap.mpr ⟨(f, d), mem_declarationSites_iff.mpr ⟨hf, hd⟩, ?_⟩
  refine Option.bind_eq_some_iff.mpr ⟨superclass, named, ?_⟩
  rw [if_neg]
  · rfl
  · simp [unresolved, foreign]

end Lint

namespace SymbolTable

variable {n : Namespace} {superclass : String} {files : List StubFile}

/-- A superclass that lookup takes is known, or reported where the first declaration with a
superclass is. -/
theorem knows_or_reported (version : Version) (directory : Path) (errors : List FileError)
    (member : n ∈ (ofFiles files).namespaces)
    (taken : (ofFiles files).superclassOf n = some superclass) :
    (ofFiles files).Knows superclass ∨
      ∃ f ∈ files, ∃ before d after,
        (ofFiles files).declarations n.qualifiedName = before ++ d :: after ∧
          (∀ e ∈ before, e.superclass = none) ∧ d ∈ f.namespaces ∧
          d.superclass = some superclass ∧
          Lint.superclassFinding (.ofFiles version directory files errors) f d superclass ∈
            Lint.Rule.unknownSuperclass.check (.ofFiles version directory files errors) := by
  rcases superclassOf_cases taken with known | ⟨written, unresolved⟩
  · exact Or.inl known
  · by_cases builtin : Lint.isBuiltin superclass = true
    · exact Or.inl (knows_of_isBuiltin builtin)
    · obtain ⟨before, d, after, eq, bare, named⟩ := declaring_superclass member written
      have declared : d ∈ (ofFiles files).declarations n.qualifiedName := by simp [eq]
      obtain ⟨⟨f, hf, hd⟩, same⟩ := mem_declarations_iff.mp declared
      have scope : d.scope = n.scope := by
        rw [Namespace.scope, Namespace.scope, Namespace.isTopLevel, Namespace.isTopLevel, same]
      have found := Lint.superclassFinding_mem_check
        (s := .ofFiles version directory files errors) hf hd named (scope ▸ unresolved) builtin
      exact Or.inr ⟨f, hf, before, d, after, eq, bare, hd, named, found⟩

/-- The superclasses of the classes in a table. A class has none only if it is the one at the root,
and one that is not known is reported at the first declaration that names it. If nothing is
reported, then all names that follow a class on its chain of superclasses are known. -/
theorem superclasses_closed (version : Version) (directory : Path) (files : List StubFile)
    (errors : List FileError) :
    (∀ n ∈ (ofFiles files).namespaces, n.isClass = true →
      ((ofFiles files).superclassOf n = none ↔ n.qualifiedName = "BasicObject") ∧
      ∀ superclass, (ofFiles files).superclassOf n = some superclass →
        (ofFiles files).Knows superclass ∨
          ∃ f ∈ files, ∃ before d after,
            (ofFiles files).declarations n.qualifiedName = before ++ d :: after ∧
              (∀ e ∈ before, e.superclass = none) ∧ d ∈ f.namespaces ∧
              d.superclass = some superclass ∧
              Lint.superclassFinding (.ofFiles version directory files errors) f d superclass ∈
                Lint.Rule.unknownSuperclass.check (.ofFiles version directory files errors)) ∧
    (Lint.Rule.unknownSuperclass.check (.ofFiles version directory files errors) = [] →
      (∀ n ∈ (ofFiles files).namespaces, ∀ superclass,
        (ofFiles files).superclassOf n = some superclass → (ofFiles files).Knows superclass) ∧
      ∀ name next, Relation.TransGen (ofFiles files).Inherits name next →
        (ofFiles files).Knows next) := by
  refine ⟨fun n member isClass => ⟨superclassOf_eq_none_iff isClass, fun superclass taken =>
    knows_or_reported version directory errors member taken⟩, fun clean => ?_⟩
  have closed : ∀ n ∈ (ofFiles files).namespaces, ∀ superclass,
      (ofFiles files).superclassOf n = some superclass → (ofFiles files).Knows superclass := by
    intro n member superclass taken
    rcases knows_or_reported version directory errors member taken with
      known | ⟨_, _, _, _, _, _, _, _, _, found⟩
    · exact known
    · rw [clean] at found
      exact absurd found List.not_mem_nil
  refine ⟨closed, fun name next chain => ?_⟩
  obtain ⟨_, -, n, found, taken⟩ := Relation.TransGen.tail'_iff.mp chain
  exact closed n (mem_of_find? found) next taken

def bufferText : String :=
  "class Full < ::StopIteration; end\nclass Buffer; end\n" ++
    "class Buffer < Full; end\nclass Buffer; end"

def buffer : Namespace :=
  { kind := .klass, name := "Buffer", qualifiedName := "Buffer", path := "buffer.rb", line := 2 }

def bufferFile : StubFile where
  path := "buffer.rb"
  namespaces :=
    [{ kind := .klass, name := "Full", qualifiedName := "Full",
       superclass := some "::StopIteration", path := "buffer.rb", line := 1 },
     buffer,
     { buffer with superclass := some "Full", line := 3 },
     { buffer with line := 4 }]

def bufferSnapshot : Snapshot := .ofFiles ⟨3, 3⟩ { parts := ["stubs"] } [bufferFile] []

theorem buffer_superclasses_known :
    (StubFile.parse bufferText "buffer.rb").toOption = some bufferFile ∧
      Lint.Rule.unknownSuperclass.check bufferSnapshot = [] ∧
      (ofFiles [bufferFile]).superclassOf { buffer with superclass := some "Full" } = some "Full" ∧
      (ofFiles [bufferFile]).Knows "Full" ∧ (ofFiles [bufferFile]).Knows "::StopIteration" := by
  have clean : Lint.Rule.unknownSuperclass.check bufferSnapshot = [] := by decide
  obtain ⟨closed, chained⟩ :=
    (superclasses_closed ⟨3, 3⟩ { parts := ["stubs"] } [bufferFile] []).2 clean
  have taken : (ofFiles [bufferFile]).superclassOf { buffer with superclass := some "Full" } =
      some "Full" := by decide
  have first : (ofFiles [bufferFile]).Inherits "Buffer" "Full" :=
    ⟨{ buffer with superclass := some "Full" }, by decide, taken⟩
  have second : (ofFiles [bufferFile]).Inherits "Full" "::StopIteration" :=
    ⟨bufferFile.namespaces[0], by decide, by decide⟩
  exact ⟨by decide, clean, taken, closed _ (by decide) _ taken,
    chained _ _ (.tail (.single first) second)⟩

end SymbolTable

end RubyIndex
