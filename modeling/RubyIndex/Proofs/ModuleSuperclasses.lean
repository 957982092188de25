import RubyIndex.Proofs.AnsweredNames
import RubyIndex.Proofs.OpenedNamespaces

/-! Superclasses of modules. No declaration of a module names a superclass. The merge takes the kind
of a namespace from one declaration and its superclass from another, so that a module gets the
superclass of a class declaration that reopens it. -/
namespace RubyIndex

/-- What a single declaration guarantees: only explicit classes name a superclass, and what
definitions outside all bodies imply is a class. -/
structure Namespace.Kinded (n : Namespace) : Prop where
  superclass : ∀ name, n.superclass = some name → n.kind = .klass ∧ n.implicit = false
  implicit : n.implicit = true → n.kind = .klass

namespace Statement

theorem classHeader?_kind {s : List Char} {h : Header} (read : classHeader? s = some h) :
    h.kind = .klass := by
  unfold classHeader? at read
  simp only [Option.bind_eq_bind, Option.bind_eq_some_iff] at read
  obtain ⟨text, -, ⟨path, rest⟩, -, read⟩ := read
  split at read
  all_goals
    obtain ⟨closed, -, eq⟩ := Option.bind_eq_some_iff.mp read
    cases eq
    rfl

theorem moduleHeader?_superclass {s : List Char} {h : Header} (read : moduleHeader? s = some h) :
    h.superclass = none := by
  unfold moduleHeader? at read
  simp only [Option.bind_eq_bind, Option.bind_eq_some_iff] at read
  obtain ⟨text, -, ⟨path, rest⟩, -, closed, -, eq⟩ := read
  cases eq
  rfl

end Statement

theorem StubFile.Parsed.kinded {f : StubFile} (h : f.Parsed) : ∀ n ∈ f.namespaces, n.Kinded := by
  obtain ⟨text, path, parsed⟩ := h
  have header : ∀ source header, Statement.read source = .openNamespace header →
      ∀ within line documentation,
        (header.namespace within path line documentation).Kinded := by
    intro source header read within line documentation
    refine ⟨?_, fun implicit => nomatch implicit⟩
    intro name superclass
    rcases Statement.read_header read with read | read
    · exact ⟨Statement.classHeader?_kind read, rfl⟩
    · have none := Statement.moduleHeader?_superclass read
      change header.superclass = some name at superclass
      rw [none] at superclass
      cases superclass
  have all := forall_bare_of_parse (P := Namespace.Kinded) parsed
    ⟨by simp [Body.implicitClass], fun _ => rfl⟩ header
  intro n hn
  have kinded := all.2 n hn
  exact ⟨kinded.superclass, kinded.implicit⟩

/-- A module whose declarations are kinded has an explicit module declaration before every
declaration that is explicit, and no superclass up to it. -/
theorem module_declared_first {first : Namespace} {later : List Namespace} {n : Namespace}
    (kinded : ∀ d ∈ first :: later, d.Kinded) (merged : MergedFrom first later n)
    (modul : n.kind = .modul) :
    ∃ before m after, first :: later = before ++ m :: after ∧ m.kind = .modul ∧
      m.implicit = false ∧ (∀ d ∈ before, d.implicit = true) ∧
      ∀ d ∈ before ++ [m], d.superclass = none := by
  have kind := merged.kind
  rw [modul] at kind
  by_cases explicit : ∃ d ∈ first :: later, d.implicit = false
  · obtain ⟨d, hd, explicit⟩ := explicit
    obtain ⟨before, after, eq, hb, declared⟩ := placing_explicit hd explicit
    refine ⟨before, placing first later, after, eq, kind.symm, declared, hb, ?_⟩
    intro d hd
    rw [Option.eq_none_iff_forall_ne_some]
    intro name superclass
    rcases List.mem_append.mp hd with hd | hd
    · have member : d ∈ first :: later := by simp [eq, hd]
      have explicit := ((kinded d member).superclass name superclass).2
      exact absurd (hb d hd) (by simp [explicit])
    · obtain rfl := List.mem_singleton.mp hd
      have member : placing first later ∈ first :: later := by rw [eq]; simp
      have klass := ((kinded _ member).superclass name superclass).1
      exact absurd kind (by simp [klass])
  · have implicit : ∀ d ∈ first :: later, d.implicit = true := by simpa using explicit
    have none : (first :: later).find? (!·.implicit) = none :=
      List.find?_eq_none.mpr fun d hd => by simp [implicit d hd]
    have klass := (kinded first List.mem_cons_self).implicit (implicit first List.mem_cons_self)
    rw [placing, none, Option.getD_none, klass] at kind
    cases kind

/-- A merged namespace has no superclass exactly if no class declaration names one. -/
theorem superclass_eq_none_iff {first : Namespace} {later : List Namespace} {n : Namespace}
    (kinded : ∀ d ∈ first :: later, d.Kinded) (merged : MergedFrom first later n) :
    n.superclass = none ↔ ∀ d ∈ first :: later, d.kind = .klass → d.superclass = none := by
  rw [merged.superclass, List.findSome?_eq_none_iff]
  constructor
  · intro none d hd _
    exact none d hd
  · intro none d hd
    rw [Option.eq_none_iff_forall_ne_some]
    intro s hs
    have klass := ((kinded d hd).superclass s hs).1
    rw [none d hd klass] at hs
    cases hs

/-- The superclass of a module is the one of a class declaration after the module. -/
theorem superclass_after_module {first : Namespace} {later : List Namespace} {n : Namespace}
    {superclass : String} (kinded : ∀ d ∈ first :: later, d.Kinded)
    (merged : MergedFrom first later n) (modul : n.kind = .modul)
    (named : n.superclass = some superclass) :
    ∃ before m between c after, first :: later = before ++ m :: between ++ c :: after ∧
      (∀ d ∈ before, d.implicit = true) ∧ m.kind = .modul ∧ m.implicit = false ∧
      c.kind = .klass ∧ c.superclass = some superclass ∧
      ∀ d ∈ before ++ m :: between, d.superclass = none := by
  obtain ⟨before, m, after, split, kind, explicit, implicit, bare⟩ :=
    module_declared_first kinded merged modul
  have skip : before.findSome? (·.superclass) = none ∧ m.superclass = none := by
    rw [List.findSome?_eq_none_iff]
    exact ⟨fun d hd => bare d (by simp [hd]), bare m (by simp)⟩
  rw [merged.superclass, split, List.findSome?_append, skip.1, Option.none_or,
    List.findSome?_cons, skip.2] at named
  obtain ⟨between, c, rest, rfl, hc, hb⟩ := List.findSome?_eq_some_iff.mp named
  have member : c ∈ first :: later := by simp [split]
  have klass := ((kinded c member).superclass superclass hc).1
  refine ⟨before, m, between, c, rest, by simp [split], implicit, kind, explicit, klass, hc, ?_⟩
  intro d hd
  rcases List.mem_append.mp hd with hd | hd
  · exact bare d (by simp [hd])
  · rcases List.mem_cons.mp hd with rfl | hd
    · exact skip.2
    · exact hb d hd

namespace SymbolTable

variable {files : List StubFile} {name : String} {n : Namespace}

theorem kinded_declarations (parsed : ∀ f ∈ files, f.Parsed) (name : String) :
    ∀ d ∈ (ofFiles files).declarations name, d.Kinded := by
  intro d hd
  obtain ⟨⟨f, hf, member⟩, -⟩ := mem_declarations_iff.mp hd
  exact (parsed f hf).kinded d member

/-- A module has no superclass exactly if no class declaration of its name names one. If it has
one, it is the superclass of a class declaration after an explicit module declaration. -/
theorem module_without_superclass_iff (parsed : ∀ f ∈ files, f.Parsed)
    (found : (ofFiles files).find? name = some n) (modul : n.kind = .modul) :
    (n.superclass = none ↔
        ∀ d ∈ (ofFiles files).declarations name, d.kind = .klass → d.superclass = none) ∧
      (∀ superclass, n.superclass = some superclass → ∃ before m between c after,
        (ofFiles files).declarations name = before ++ m :: between ++ c :: after ∧
          (∀ d ∈ before, d.implicit = true) ∧ m.kind = .modul ∧ m.implicit = false ∧
          c.kind = .klass ∧ c.superclass = some superclass ∧
          ∀ d ∈ before ++ m :: between, d.superclass = none) ∧
      ((∀ d ∈ (ofFiles files).declarations name, d.implicit = false → d.kind = .modul) →
        n.superclass = none) := by
  have kinded := kinded_declarations parsed name
  rw [find?_ofFiles] at found
  cases all : (ofFiles files).declarations name with
  | nil => simp [all, mergeAll] at found
  | cons first later =>
    rw [all] at found kinded
    obtain ⟨_, eq, merged⟩ := mergeAll_merged first later
    obtain rfl : n = _ := Option.some.inj (found.symm.trans eq)
    have absent := superclass_eq_none_iff kinded merged
    refine ⟨absent, fun s hs => superclass_after_module kinded merged modul hs, ?_⟩
    intro modules
    rw [absent]
    intro d hd klass
    rw [Option.eq_none_iff_forall_ne_some]
    intro s hs
    have explicit := ((kinded d hd).superclass s hs).2
    have kind := modules d hd explicit
    exact absurd kind (by simp [klass])

def objectText : String := "def helper; end\nmodule Object; end\nclass Object; end"

def objectModule : Namespace where
  kind := .modul
  name := "Object"
  qualifiedName := "Object"
  methods := [{ name := "helper", visibility := .priv, line := 1 }]
  path := "object.rb"
  line := 2

def objectFile : StubFile where
  path := "object.rb"
  namespaces :=
    [{ objectModule with kind := .klass, line := 0, implicit := true },
     { objectModule with methods := [] },
     { objectModule with kind := .klass, methods := [], line := 3 }]

theorem object_module_without_superclass :
    (StubFile.parse objectText "object.rb").toOption = some objectFile ∧
      (ofFiles [objectFile]).find? "Object" = some objectModule ∧
      objectModule.superclass = none := by
  have read : (StubFile.parse objectText "object.rb").toOption = some objectFile := by
    decide
  have found : (ofFiles [objectFile]).find? "Object" = some objectModule := by rfl
  refine ⟨read, found, ?_⟩
  have parsed : ∀ f ∈ [objectFile], f.Parsed := by
    intro f hf
    obtain rfl := List.mem_singleton.mp hf
    exact ⟨_, _, toOption_eq_some_iff.mp read⟩
  exact (module_without_superclass_iff parsed found rfl).1.mpr (by decide)

def reopenedText : String := "module Shape; end\nclass Shape < Base; end"

def reopenedFile : StubFile where
  path := "shape.rb"
  namespaces :=
    [{ kind := .modul, name := "Shape", qualifiedName := "Shape", path := "shape.rb", line := 1 },
     { kind := .klass, name := "Shape", qualifiedName := "Shape", superclass := some "Base",
       path := "shape.rb", line := 2 }]

/-- A module has a superclass. -/
theorem reopened_module_has_superclass :
    (StubFile.parse reopenedText "shape.rb").toOption = some reopenedFile ∧
      ((ofFiles [reopenedFile]).find? "Shape").map (fun n => (n.kind, n.superclass)) =
        some (.modul, some "Base") := by
  refine ⟨by decide, by rfl⟩

end SymbolTable

end RubyIndex
