import RubyIndex.Lint.Check
import RubyIndex.Proofs.ErasedDocumentation

/-! Tables and findings without documentation. Merging keeps documentation apart from all else, and
of the rules only the one about undocumented parameters looks at it. -/
namespace RubyIndex

namespace SymbolTable

def undocumented (t : SymbolTable) : SymbolTable :=
  { t with
    namespaces := t.namespaces.map Namespace.undocumented
    declared := t.declared.map Namespace.undocumented
    globals := t.globals.map GlobalVariable.undocumented }

end SymbolTable

def Snapshot.undocumented (s : Snapshot) : Snapshot :=
  { s with files := s.files.map StubFile.undocumented, table := s.table.undocumented }

theorem Namespace.undocumented_merge (first later : Namespace) :
    (first.merge later).undocumented = first.undocumented.merge later.undocumented := by
  have methods : (applyAliases (first.methods ++ later.methods)
      (first.aliases ++ later.aliases)).map Method.undocumented =
      applyAliases (first.undocumented.methods ++ later.undocumented.methods)
        (first.aliases ++ later.aliases) := by
    rw [map_undocumented_applyAliases, List.map_append]
    rfl
  have constants : (first.constants ++ later.constants).map Constant.undocumented =
      first.undocumented.constants ++ later.undocumented.constants := List.map_append
  unfold merge
  by_cases explicit : (first.implicit && !later.implicit) = true
  · rw [if_pos explicit, if_pos (show
      (first.undocumented.implicit && !later.undocumented.implicit) = true from explicit)]
    unfold undocumented at methods constants ⊢
    simp only [methods, constants, Option.none_or]
  · rw [if_neg explicit, if_neg (show
      ¬ (first.undocumented.implicit && !later.undocumented.implicit) = true from explicit)]
    unfold undocumented at methods constants ⊢
    simp only [methods, constants, Option.none_or]

namespace SymbolTable

theorem find?_undocumented (t : SymbolTable) (name : String) :
    t.undocumented.find? name = (t.find? name).map Namespace.undocumented := by
  unfold find? undocumented
  rw [List.find?_map]
  rfl

theorem undocumented_addNamespace (t : SymbolTable) (n : Namespace) :
    (t.addNamespace n).undocumented = t.undocumented.addNamespace n.undocumented := by
  have found := t.find?_undocumented n.qualifiedName
  unfold addNamespace
  rw [show n.undocumented.qualifiedName = n.qualifiedName from rfl, found]
  cases t.find? n.qualifiedName with
  | none => simp [undocumented]
  | some first =>
    have conflict : first.undocumented.conflict? n.undocumented = first.conflict? n := rfl
    have merged (m : Namespace) : Namespace.undocumented
        (if m.qualifiedName = n.qualifiedName then first.merge n else m) =
        if m.undocumented.qualifiedName = n.qualifiedName then
          first.undocumented.merge n.undocumented
        else m.undocumented := by
      by_cases same : m.qualifiedName = n.qualifiedName
      · rw [if_pos same, if_pos (show m.undocumented.qualifiedName = _ from same),
          Namespace.undocumented_merge]
      · rw [if_neg same, if_neg (show ¬ m.undocumented.qualifiedName = _ from same)]
    simp only [undocumented, Option.map_some, conflict, List.map_append, List.map_map,
      Function.comp_def, merged, List.map_cons, List.map_nil]

theorem undocumented_addGlobal (t : SymbolTable) (g : GlobalVariable) :
    (t.addGlobal g).undocumented = t.undocumented.addGlobal g.undocumented := by
  have known : (t.undocumented.globals.any fun other => other.name == g.undocumented.name) =
      t.globals.any fun other => other.name == g.name := by
    unfold undocumented
    rw [List.any_map]
    rfl
  unfold addGlobal
  rw [known]
  by_cases listed : (t.globals.any fun other => other.name == g.name) = true
  · rw [if_pos listed, if_pos listed]
  · rw [if_neg listed, if_neg listed]
    simp [undocumented]

theorem foldl_hom_map {α β γ δ : Type} {f : α → β} {g : γ → δ} {act : α → γ → α}
    {act' : β → δ → β} (h : ∀ a c, f (act a c) = act' (f a) (g c)) (a : α) (l : List γ) :
    f (l.foldl act a) = (l.map g).foldl act' (f a) := by
  rw [List.foldl_map]
  exact (List.foldl_hom f fun a c => (h a c).symm).symm

theorem undocumented_addFile (t : SymbolTable) (f : StubFile) :
    (t.addFile f).undocumented = t.undocumented.addFile f.undocumented := by
  unfold addFile
  rw [foldl_hom_map undocumented_addGlobal, foldl_hom_map undocumented_addNamespace]
  rfl

theorem undocumented_ofFiles (files : List StubFile) :
    (ofFiles files).undocumented = ofFiles (files.map StubFile.undocumented) :=
  foldl_hom_map undocumented_addFile {} files

theorem has_undocumented (t : SymbolTable) : t.undocumented.has = t.has := by
  funext name
  unfold has
  rw [find?_undocumented, Option.isSome_map]

theorem resolve?_undocumented (t : SymbolTable) : t.undocumented.resolve? = t.resolve? := by
  unfold resolve?
  rw [has_undocumented]

theorem names_undocumented (t : SymbolTable) : t.undocumented.names = t.names := by
  unfold names undocumented
  rw [List.map_map]
  rfl

theorem declarations_undocumented (t : SymbolTable) (name : String) :
    t.undocumented.declarations name = (t.declarations name).map Namespace.undocumented := by
  unfold declarations undocumented
  rw [List.filter_map]
  rfl

end SymbolTable

theorem StubFile.primary?_undocumented (f : StubFile) :
    f.undocumented.primary? = f.primary?.map Namespace.undocumented := by
  have declared : f.undocumented.namespaces.filter (!·.implicit) =
      (f.namespaces.filter (!·.implicit)).map Namespace.undocumented := List.filter_map
  have top : ((f.namespaces.filter (!·.implicit)).map Namespace.undocumented).find?
      (·.isTopLevel) = ((f.namespaces.filter (!·.implicit)).find? (·.isTopLevel)).map
        Namespace.undocumented := List.find?_map
  unfold primary?
  dsimp only
  rw [declared, top, List.head?_map, Option.map_or]

namespace Lint

theorem declarationSites_undocumented (s : Snapshot) : declarationSites s.undocumented =
    (declarationSites s).map fun site => (site.1.undocumented, site.2.undocumented) := by
  unfold declarationSites
  rw [List.map_flatMap, Snapshot.undocumented, List.flatMap_map]
  refine List.flatMap_congr fun f _ => ?_
  rw [StubFile.undocumented, List.map_map, List.map_map]
  rfl

theorem isDefined_undocumented (s : Snapshot) (n : Namespace) (a : Alias) :
    isDefined s.undocumented n.undocumented a = isDefined s n a := by
  have found : s.undocumented.table.get? n.undocumented.qualifiedName =
      (s.table.get? n.qualifiedName).map Namespace.undocumented := s.table.find?_undocumented _
  unfold isDefined
  rw [found, Option.any_map]
  refine congrArg (fun test => (s.table.get? n.qualifiedName).any test) (funext fun merged => ?_)
  unfold Namespace.findMethod? Namespace.undocumented
  rw [find?_reachedBy_undocumented, Option.isSome_map]

theorem checkAliases_undocumented (s : Snapshot) :
    checkAliases s.undocumented = checkAliases s := by
  unfold checkAliases
  rw [declarationSites_undocumented, List.flatMap_map]
  refine List.flatMap_congr fun site _ => ?_
  simp only [isDefined_undocumented]
  rfl

theorem checkSuperclasses_undocumented (s : Snapshot) :
    checkSuperclasses s.undocumented = checkSuperclasses s := by
  unfold checkSuperclasses
  rw [declarationSites_undocumented, List.filterMap_map]
  refine List.filterMap_congr fun site _ => ?_
  have resolved : s.undocumented.table.resolve? = s.table.resolve? := s.table.resolve?_undocumented
  simp only [Function.comp_def, resolved]
  rfl

theorem checkFileNames_undocumented (s : Snapshot) :
    checkFileNames s.undocumented = checkFileNames s := by
  unfold checkFileNames
  rw [Snapshot.undocumented, List.filterMap_map]
  refine List.filterMap_congr fun f _ => ?_
  simp only [Function.comp_def, StubFile.primary?_undocumented]
  cases f.primary? <;> rfl

theorem topLevelSites_undocumented (s : Snapshot) : topLevelSites s.undocumented =
    (topLevelSites s).map fun site => (site.1, site.2.undocumented) := by
  have sorted : sortOn (·.path) s.undocumented.files =
      (sortOn (·.path) s.files).map StubFile.undocumented := by
    unfold sortOn
    exact (List.map_mergeSort (f := StubFile.undocumented) fun _ _ _ _ => rfl).symm
  unfold topLevelSites
  rw [sorted, List.map_flatMap, List.flatMap_map]
  refine List.flatMap_congr fun f _ => ?_
  rw [StubFile.undocumented, List.filter_map, List.map_map, List.map_map]
  rfl

theorem checkNamespaces_undocumented (s : Snapshot) :
    checkNamespaces s.undocumented = checkNamespaces s := by
  have first (name : String) :
      (topLevelSites s.undocumented).find? (fun site => site.2.qualifiedName == name) =
        ((topLevelSites s).find? fun site => site.2.qualifiedName == name).map
          fun site => (site.1, site.2.undocumented) := by
    rw [topLevelSites_undocumented, List.find?_map]
    rfl
  unfold checkNamespaces
  simp only [first]
  rw [topLevelSites_undocumented, List.filterMap_map]
  refine List.filterMap_congr fun site _ => ?_
  have name : site.2.undocumented.qualifiedName = site.2.qualifiedName := rfl
  simp only [Function.comp_def, name]
  cases (topLevelSites s).find? fun other => other.2.qualifiedName == site.2.qualifiedName <;> rfl

theorem membersOf_undocumented (n : Namespace) : membersOf n.undocumented = membersOf n := by
  unfold membersOf Namespace.undocumented
  rw [List.map_map, List.map_map]
  rfl

theorem checkMembers_undocumented (s : Snapshot) :
    checkMembers s.undocumented = checkMembers s := by
  have names : s.undocumented.table.names = s.table.names := s.table.names_undocumented
  have members (name : String) : (s.undocumented.table.declarations name).flatMap membersOf =
      (s.table.declarations name).flatMap membersOf := by
    change (s.table.undocumented.declarations name).flatMap membersOf = _
    rw [SymbolTable.declarations_undocumented, List.flatMap_map]
    simp only [membersOf_undocumented]
  unfold checkMembers
  simp only [names, members]
  rfl

theorem checkStatements_undocumented (s : Snapshot) :
    checkStatements s.undocumented = checkStatements s := by
  unfold checkStatements
  rw [Snapshot.undocumented, List.flatMap_map]
  rfl

/-- Every other rule finds the same without documentation. -/
theorem check_undocumented {r : Rule} (other : r ≠ .undocumentedParameter) (s : Snapshot) :
    r.check s.undocumented = r.check s := by
  cases r with
  | undocumentedParameter => exact absurd rfl other
  | danglingAlias => exact checkAliases_undocumented s
  | unknownSuperclass => exact checkSuperclasses_undocumented s
  | fileNameMismatch => exact checkFileNames_undocumented s
  | duplicateNamespace => exact checkNamespaces_undocumented s
  | duplicateMember => exact checkMembers_undocumented s
  | superclassConflict => rfl
  | unrecognizedStatement => exact checkStatements_undocumented s
  | parseError => rfl

end Lint

end RubyIndex
