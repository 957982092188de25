import RubyIndex.StubFile.Reading

/-! Labels of methods. Nothing that is done to the methods of a namespace looks at their lines or at
their documentation, and so it may be done before or after these are changed. -/
namespace RubyIndex

def Method.relabel (line : Nat → Nat) (documentation : Option String → Option String) (m : Method) :
    Method :=
  { m with documentation := documentation m.documentation, line := line m.line }

section Relabel

variable (line : Nat → Nat) (documentation : Option String → Option String)

theorem Method.reachedBy_relabel (m : Method) (name : String) (receiver : Receiver) :
    (m.relabel line documentation).reachedBy name receiver = m.reachedBy name receiver := rfl

theorem Method.relabel_withAlias (m : Method) (name : String) :
    (m.withAlias name).relabel line documentation =
      (m.relabel line documentation).withAlias name := by
  unfold withAlias
  by_cases known : m.aliases.contains name = true
  · rw [if_pos known,
      if_pos (show (m.relabel line documentation).aliases.contains name = true from known)]
  · rw [if_neg known,
      if_neg (show ¬ (m.relabel line documentation).aliases.contains name = true from known)]
    rfl

theorem map_relabel_updateFirst (change : Method → Method)
    (h : ∀ m, (change m).relabel line documentation = change (m.relabel line documentation))
    (name : String) (receiver : Receiver) (methods : List Method) :
    (updateFirst name receiver change methods).map (·.relabel line documentation) =
      updateFirst name receiver change (methods.map (·.relabel line documentation)) := by
  induction methods with
  | nil => rfl
  | cons m rest ih =>
    rw [List.map_cons, updateFirst, updateFirst, Method.reachedBy_relabel]
    by_cases reached : m.reachedBy name receiver = true
    · rw [if_pos reached, if_pos reached, List.map_cons, h]
    · rw [if_neg reached, if_neg reached, List.map_cons, ih]

theorem map_relabel_record (methods : List Method) (a : Alias) :
    (a.record methods).map (·.relabel line documentation) =
      a.record (methods.map (·.relabel line documentation)) :=
  map_relabel_updateFirst line documentation _
    (fun m => m.relabel_withAlias line documentation a.newName) _ _ methods

theorem map_relabel_applyAliases (methods : List Method) (aliases : List Alias) :
    (applyAliases methods aliases).map (·.relabel line documentation) =
      applyAliases (methods.map (·.relabel line documentation)) aliases := by
  unfold applyAliases
  exact (List.foldl_hom (List.map (Method.relabel line documentation)) fun methods a =>
    (map_relabel_record line documentation methods a).symm).symm

theorem find?_reachedBy_relabel (methods : List Method) (name : String) (receiver : Receiver) :
    (methods.map (·.relabel line documentation)).find? (·.reachedBy name receiver) =
      (methods.find? (·.reachedBy name receiver)).map (·.relabel line documentation) := by
  rw [List.find?_map]
  rfl

theorem map_relabel_makeModuleFunction (methods : List Method) (name : String) :
    (makeModuleFunction methods name).map (·.relabel line documentation) =
      makeModuleFunction (methods.map (·.relabel line documentation)) name := by
  unfold makeModuleFunction
  rw [find?_reachedBy_relabel]
  cases methods.find? (·.reachedBy name .inst) with
  | none => rfl
  | some m =>
    dsimp only [Option.map]
    rw [List.map_append, map_relabel_updateFirst line documentation
      (fun m => { m with visibility := .priv }) fun _ => rfl]
    rfl

theorem Scope.map_relabel_place (s : Scope) (m : Method) :
    (s.place m).map (·.relabel line documentation) = s.place (m.relabel line documentation) := by
  unfold place
  by_cases both : (s.moduleFunctions && m.receiver == .inst) = true
  · rw [if_pos both, if_pos (show (s.moduleFunctions &&
      (m.relabel line documentation).receiver == .inst) = true from both)]
    rfl
  · rw [if_neg both, if_neg (show ¬ (s.moduleFunctions &&
      (m.relabel line documentation).receiver == .inst) = true from both)]
    rfl

theorem Scope.map_relabel_publish (s : Scope) (visibility : Visibility) (methods : List Method)
    (name : String) :
    (s.publish visibility methods name).map (·.relabel line documentation) =
      s.publish visibility (methods.map (·.relabel line documentation)) name :=
  map_relabel_updateFirst line documentation (fun m => { m with visibility := visibility })
    (fun _ => rfl) _ _ methods

end Relabel

end RubyIndex
