import RubyIndex.Proofs.MergedDeclarations

/-! Recording aliases on methods: which methods a statement touches, when it touches none, and
which names are answered to after it. A pass over alias statements only adds aliases, so that it
changes nothing exactly if none of its statements does. -/
namespace RubyIndex

namespace Alias

/-- Whether the method that the old name leads to, if there is one, has the new name already. -/
def Settled (a : Alias) (methods : List Method) : Prop :=
  ∀ m, methods.find? (·.reachedBy a.oldName a.receiver) = some m → a.newName ∈ m.aliases

end Alias

theorem withAlias_eq_self_iff {m : Method} {name : String} :
    m.withAlias name = m ↔ name ∈ m.aliases := by
  unfold Method.withAlias
  by_cases h : name ∈ m.aliases
  · simp [h]
  · simp only [List.contains_iff_mem, h, if_false, iff_false]
    intro same
    have longer := congrArg (·.aliases.length) same
    simp at longer

/-- A change goes to the first method that answers to the name, and to no other. -/
theorem updateFirst_cases (name : String) (receiver : Receiver) (change : Method → Method)
    (methods : List Method) :
    (methods.find? (·.reachedBy name receiver) = none ∧
        updateFirst name receiver change methods = methods) ∨
      ∃ before m after, methods = before ++ m :: after ∧
        before.find? (·.reachedBy name receiver) = none ∧ m.reachedBy name receiver = true ∧
        updateFirst name receiver change methods = before ++ change m :: after := by
  induction methods with
  | nil => exact .inl ⟨rfl, rfl⟩
  | cons m rest ih =>
    by_cases reached : m.reachedBy name receiver = true
    · exact .inr ⟨[], m, rest, rfl, rfl, reached, by simp [updateFirst, reached]⟩
    · rcases ih with ⟨absent, same⟩ | ⟨before, x, after, eq, first, found, changed⟩
      · exact .inl ⟨by simpa [reached] using absent, by simp [updateFirst, reached, same]⟩
      · refine .inr ⟨m :: before, x, after, by simp [eq], by simpa [reached] using first, found, ?_⟩
        simp [updateFirst, reached, changed]

theorem forall_mem_updateFirst {P : Method → Prop} {change : Method → Method}
    (keeps : ∀ m, P m → P (change m)) (name : String) (receiver : Receiver)
    {methods : List Method} (h : ∀ m ∈ methods, P m) :
    ∀ m ∈ updateFirst name receiver change methods, P m := by
  rcases updateFirst_cases name receiver change methods with
    ⟨-, same⟩ | ⟨before, m, after, rfl, -, -, changed⟩
  · rwa [same]
  · rw [List.forall_mem_append, List.forall_mem_cons] at h
    rw [changed, List.forall_mem_append, List.forall_mem_cons]
    exact ⟨h.1, keeps m h.2.1, h.2.2⟩

theorem record_cases (a : Alias) (methods : List Method) :
    (methods.find? (·.reachedBy a.oldName a.receiver) = none ∧ a.record methods = methods) ∨
      ∃ before m after, methods = before ++ m :: after ∧
        before.find? (·.reachedBy a.oldName a.receiver) = none ∧
        m.reachedBy a.oldName a.receiver = true ∧
        a.record methods = before ++ m.withAlias a.newName :: after :=
  updateFirst_cases a.oldName a.receiver (·.withAlias a.newName) methods

theorem receiver_of_reachedBy {m : Method} {name : String} {receiver : Receiver}
    (h : m.reachedBy name receiver = true) : m.receiver = receiver := by
  simp only [Method.reachedBy, Bool.and_eq_true, beq_iff_eq] at h
  exact h.1

theorem record_eq_self_iff {a : Alias} {methods : List Method} :
    a.record methods = methods ↔ a.Settled methods := by
  unfold Alias.Settled
  rcases record_cases a methods with
    ⟨absent, same⟩ | ⟨before, m, after, rfl, first, reached, changed⟩
  · simp [absent, same]
  · rw [changed]
    simp [withAlias_eq_self_iff, List.find?_append, first, reached]

def aliasCount (methods : List Method) : Nat := (methods.flatMap (·.aliases)).length

theorem length_aliases_withAlias (m : Method) (name : String) :
    m.aliases.length ≤ (m.withAlias name).aliases.length := by
  unfold Method.withAlias
  split <;> simp

theorem aliasCount_le_record (a : Alias) (methods : List Method) :
    aliasCount methods ≤ aliasCount (a.record methods) := by
  rcases record_cases a methods with ⟨-, same⟩ | ⟨before, m, after, rfl, -, -, changed⟩
  · exact Nat.le_of_eq (congrArg aliasCount same.symm)
  · have grows := length_aliases_withAlias m a.newName
    rw [changed]
    simp only [aliasCount, List.flatMap_append, List.flatMap_cons, List.length_append]
    omega

theorem record_eq_self_of_aliasCount {a : Alias} {methods : List Method}
    (h : aliasCount (a.record methods) ≤ aliasCount methods) : a.record methods = methods := by
  rcases record_cases a methods with ⟨-, same⟩ | ⟨before, m, after, rfl, -, -, changed⟩
  · exact same
  · rw [changed] at h ⊢
    simp only [aliasCount, List.flatMap_append, List.flatMap_cons, List.length_append] at h
    by_cases known : a.newName ∈ m.aliases
    · rw [withAlias_eq_self_iff.mpr known]
    · have grown : (m.withAlias a.newName).aliases.length = m.aliases.length + 1 := by
        simp [Method.withAlias, known]
      omega

theorem aliasCount_le_applyAliases (methods : List Method) (aliases : List Alias) :
    aliasCount methods ≤ aliasCount (applyAliases methods aliases) := by
  induction aliases generalizing methods with
  | nil => exact Nat.le_refl _
  | cons a rest ih => exact Nat.le_trans (aliasCount_le_record a methods) (ih (a.record methods))

theorem applyAliases_eq_self_iff {methods : List Method} {aliases : List Alias} :
    applyAliases methods aliases = methods ↔ ∀ a ∈ aliases, a.Settled methods := by
  induction aliases with
  | nil => simp
  | cons a rest ih =>
    have pass : applyAliases methods (a :: rest) = applyAliases (a.record methods) rest := rfl
    rw [List.forall_mem_cons, ← ih, ← record_eq_self_iff, pass]
    constructor
    · -- A pass only adds aliases, so none can make up for one that the first statement adds.
      intro same
      have count := aliasCount_le_applyAliases (a.record methods) rest
      rw [same] at count
      have first := record_eq_self_of_aliasCount count
      exact ⟨first, by rwa [first] at same⟩
    · rintro ⟨first, others⟩
      rw [first, others]

def Answered (methods : List Method) (receiver : Receiver) (name : String) : Prop :=
  ∃ m ∈ methods, m.reachedBy name receiver = true

theorem answered_append {first second : List Method} {receiver : Receiver} {name : String} :
    Answered (first ++ second) receiver name ↔
      Answered first receiver name ∨ Answered second receiver name := by
  simp only [Answered, List.mem_append, or_and_right, exists_or]

theorem answered_cons {m : Method} {rest : List Method} {receiver : Receiver} {name : String} :
    Answered (m :: rest) receiver name ↔
      m.reachedBy name receiver = true ∨ Answered rest receiver name :=
  List.exists_mem_cons_iff _ m rest

theorem findMethod?_isSome_iff {n : Namespace} {name : String} {receiver : Receiver} :
    (n.findMethod? name receiver).isSome = true ↔ Answered n.methods receiver name :=
  List.find?_isSome

theorem reachedBy_withAlias {m : Method} {new name : String} {receiver : Receiver} :
    (m.withAlias new).reachedBy name receiver = true ↔
      m.reachedBy name receiver = true ∨ m.receiver = receiver ∧ name = new := by
  unfold Method.withAlias
  by_cases known : new ∈ m.aliases
  · simp only [List.contains_iff_mem, known, if_true, iff_self_or]
    rintro ⟨same, rfl⟩
    simp [Method.reachedBy, Method.answersTo, same, known]
  · simp [Method.reachedBy, Method.answersTo, known, and_or_left, or_assoc]

/-- A statement brings its new name exactly if its old name is answered to. -/
theorem answered_record_iff {a : Alias} {methods : List Method} {receiver : Receiver}
    {name : String} :
    Answered (a.record methods) receiver name ↔
      Answered methods receiver name ∨
        (a.receiver = receiver ∧ name = a.newName) ∧ Answered methods receiver a.oldName := by
  rcases record_cases a methods with ⟨absent, same⟩ | ⟨before, m, after, rfl, -, reached, changed⟩
  · rw [same, iff_self_or]
    rintro ⟨⟨rfl, -⟩, m, hm, reached⟩
    exact absurd reached (List.find?_eq_none.mp absent m hm)
  · have known : a.receiver = receiver → Answered (before ++ m :: after) receiver a.oldName := by
      rintro rfl
      exact ⟨m, by simp, reached⟩
    rw [and_iff_left_of_imp fun h => known h.1, changed]
    simp only [answered_append, answered_cons, reachedBy_withAlias, receiver_of_reachedBy reached]
    tauto

theorem answered_applyAliases {methods : List Method} {receiver : Receiver} {name : String}
    (h : Answered methods receiver name) (aliases : List Alias) :
    Answered (applyAliases methods aliases) receiver name := by
  induction aliases generalizing methods with
  | nil => exact h
  | cons a rest ih => exact ih (answered_record_iff.mpr (.inl h))

/-- A statement counts if its old name is answered to when the pass comes to it. -/
theorem answered_of_pass {methods : List Method} {a : Alias} {before : List Alias}
    (inUse : Answered (applyAliases methods before) a.receiver a.oldName) (after : List Alias) :
    Answered (applyAliases methods (before ++ a :: after)) a.receiver a.newName := by
  rw [applyAliases_append]
  exact answered_applyAliases (answered_record_iff.mpr (.inr ⟨⟨rfl, rfl⟩, inUse⟩)) after

theorem answered_of_mem_applyAliases {methods : List Method} {aliases : List Alias} {m : Method}
    (h : m ∈ applyAliases methods aliases) : Answered methods m.receiver m.name := by
  have declared := List.mem_map_of_mem (f := Method.declared) h
  rw [map_declared_applyAliases] at declared
  obtain ⟨m', hm', same⟩ := List.mem_map.mp declared
  have receiver : m'.receiver = m.receiver := congrArg (·.receiver) same
  have name : m'.name = m.name := congrArg (·.name) same
  exact ⟨m', hm', by simp [Method.reachedBy, Method.answersTo, receiver, name]⟩

theorem mem_aliases_withAlias {m : Method} {name new : String} :
    name ∈ (m.withAlias new).aliases ↔ name ∈ m.aliases ∨ name = new := by
  unfold Method.withAlias
  by_cases known : new ∈ m.aliases
  · simp only [List.contains_iff_mem, known, if_true, iff_self_or]
    rintro rfl
    exact known
  · simp [known]

namespace Alias

theorem settled_record (a : Alias) (methods : List Method) : a.Settled (a.record methods) := by
  rcases record_cases a methods with
    ⟨absent, same⟩ | ⟨before, m, after, rfl, first, reached, changed⟩
  · simp [Settled, same, absent]
  · have still : (m.withAlias a.newName).reachedBy a.oldName a.receiver = true :=
      reachedBy_withAlias.mpr (.inl reached)
    simp [Settled, changed, List.find?_append, first, still, mem_aliases_withAlias]

/-- A later statement leaves an alias settled unless it gives the old name to another method. -/
theorem Settled.record {a b : Alias} {methods : List Method} (h : a.Settled methods)
    (apart : b.receiver = a.receiver → b.newName ≠ a.oldName) : a.Settled (b.record methods) := by
  rcases record_cases b methods with ⟨-, same⟩ | ⟨before, m, after, rfl, -, reached, changed⟩
  · rwa [same]
  · have receiver := receiver_of_reachedBy reached
    have unmoved : (m.withAlias b.newName).reachedBy a.oldName a.receiver =
        m.reachedBy a.oldName a.receiver := by
      rw [Bool.eq_iff_iff, reachedBy_withAlias, or_iff_left_iff_imp]
      rintro ⟨same, old⟩
      exact absurd old.symm (apart (receiver.symm.trans same))
    -- The first method that answers to the old name is the same before and after.
    revert h
    rw [changed]
    unfold Settled
    simp only [List.find?_append, List.find?_cons, unmoved]
    cases before.find? (·.reachedBy a.oldName a.receiver) with
    | some y => exact id
    | none =>
      cases m.reachedBy a.oldName a.receiver with
      | false => exact id
      | true =>
        rintro h _ ⟨⟩
        exact mem_aliases_withAlias.mpr (.inl (h m rfl))

/-- After a pass a statement is settled if no statement after it gives its old name. -/
theorem settled_applyAliases {a : Alias} {after : List Alias}
    (apart : ∀ b ∈ after, b.receiver = a.receiver → b.newName ≠ a.oldName)
    (methods : List Method) (before : List Alias) :
    a.Settled (applyAliases methods (before ++ a :: after)) := by
  rw [applyAliases_append]
  change a.Settled (applyAliases (a.record (applyAliases methods before)) after)
  have start := a.settled_record (applyAliases methods before)
  generalize a.record (applyAliases methods before) = recorded at start
  induction after generalizing recorded with
  | nil => exact start
  | cons b after ih =>
    rw [List.forall_mem_cons] at apart
    exact ih apart.2 _ (start.record apart.1)

theorem Settled.answered {a : Alias} {methods : List Method} (h : a.Settled methods)
    (inUse : Answered methods a.receiver a.oldName) : Answered methods a.receiver a.newName := by
  obtain ⟨m, found⟩ := Option.isSome_iff_exists.mp (List.find?_isSome.mpr inUse)
  have reached : m.reachedBy a.oldName a.receiver = true := by simpa using List.find?_some found
  refine ⟨m, List.mem_of_find?_eq_some found, ?_⟩
  simp [Method.reachedBy, Method.answersTo, receiver_of_reachedBy reached, h m found]

end Alias

end RubyIndex
