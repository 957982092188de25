import Mathlib.Data.List.Forall2
import Mathlib.Data.List.Induction
import RubyIndex.Proofs.AliasRecording

/-! What alias statements leave as it is. They keep all methods in their places and only put new
names behind their aliases, and a statement gives its name to one method at most. The methods of one
receiver depend on the statements for that receiver alone, in whatever way the statements for the
two receivers are mixed. -/
namespace RubyIndex

def newNames (aliases : List Alias) (receiver : Receiver) : List String :=
  (aliases.filter (·.receiver == receiver)).map (·.newName)

namespace Method

/-- The later method is the earlier one with names behind its aliases that it did not have. -/
structure Gains (m : Method) (names : List String) (later : Method) : Prop where
  eq : later = { m with aliases := m.aliases ++ names }
  fresh : ∀ name ∈ names, name ∉ m.aliases
  distinct : names.Nodup

/-- All that a method gains comes from statements for its receiver, in their order. -/
def GainsFrom (aliases : List Alias) (m later : Method) : Prop :=
  ∃ names, m.Gains names later ∧ names.Sublist (newNames aliases m.receiver)

variable {m later : Method} {names : List String} {aliases : List Alias}

theorem gains_nil (m : Method) : m.Gains [] m where
  eq := by simp
  fresh := List.forall_mem_nil _
  distinct := List.nodup_nil

theorem Gains.concat (h : m.Gains names later) {name : String} (new : name ∉ later.aliases) :
    m.Gains (names ++ [name]) { later with aliases := later.aliases ++ [name] } := by
  obtain ⟨rfl, fresh, distinct⟩ := h
  obtain ⟨unknown, ungained⟩ : name ∉ m.aliases ∧ name ∉ names := by simpa using new
  constructor
  · simp
  · intro x hx
    rcases List.mem_append.mp hx with gained | last
    · exact fresh x gained
    · exact List.mem_singleton.mp last ▸ unknown
  · exact List.nodup_append.mpr ⟨distinct, List.nodup_singleton name, fun x hx y hy same =>
      ungained (List.mem_singleton.mp hy ▸ same ▸ hx)⟩

theorem GainsFrom.skip (h : GainsFrom aliases m later) (a : Alias) :
    GainsFrom (aliases ++ [a]) m later := by
  obtain ⟨names, gains, listed⟩ := h
  refine ⟨names, gains, listed.trans ?_⟩
  rw [newNames, newNames, List.filter_append, List.map_append]
  exact List.sublist_append_left _ _

theorem GainsFrom.withAlias (h : GainsFrom aliases m later) {a : Alias}
    (own : later.receiver = a.receiver) :
    GainsFrom (aliases ++ [a]) m (later.withAlias a.newName) := by
  by_cases known : a.newName ∈ later.aliases
  · rw [withAlias_eq_self_iff.mpr known]
    exact h.skip a
  · obtain ⟨names, gains, listed⟩ := h
    have receiver : a.receiver = m.receiver := by rw [← own, gains.eq]
    refine ⟨names ++ [a.newName], ?_, ?_⟩
    · simpa [Method.withAlias, known] using gains.concat known
    · simpa [newNames, receiver] using listed

end Method

section Update

variable {name : String} {receiver : Receiver} {change : Method → Method}

/-- A relation between methods in the same places, before and after a change to one of them. -/
theorem forall₂_updateFirst {R S : Method → Method → Prop} {methods later : List Method}
    (passed : ∀ m x, R m x → S m x)
    (changed : ∀ m x, R m x → x.reachedBy name receiver = true → S m (change x))
    (h : List.Forall₂ R methods later) :
    List.Forall₂ S methods (updateFirst name receiver change later) := by
  induction h with
  | nil => exact .nil
  | @cons m x methods later first rest ih =>
    rw [updateFirst]
    by_cases reached : x.reachedBy name receiver = true
    · rw [if_pos reached]
      exact .cons (changed m x first reached) (rest.imp passed)
    · rw [if_neg reached]
      exact .cons (passed m x first) ih

/-- A change for a receiver may be made before or after the methods of others are left out. -/
theorem filter_updateFirst_self (keeps : ∀ m, (change m).receiver = m.receiver)
    (methods : List Method) :
    (updateFirst name receiver change methods).filter (·.receiver == receiver) =
      updateFirst name receiver change (methods.filter (·.receiver == receiver)) := by
  induction methods with
  | nil => rfl
  | cons m rest ih =>
    by_cases own : m.receiver = receiver
    · by_cases reached : m.reachedBy name receiver = true
      · simp [updateFirst, reached, keeps, own]
      · simp [updateFirst, reached, own, ih]
    · have passed : ¬ m.reachedBy name receiver = true :=
        fun reached => own (receiver_of_reachedBy reached)
      simp [updateFirst, passed, own, ih]

theorem filter_updateFirst_other {other : Receiver} (apart : receiver ≠ other)
    (keeps : ∀ m, (change m).receiver = m.receiver) (methods : List Method) :
    (updateFirst name receiver change methods).filter (·.receiver == other) =
      methods.filter (·.receiver == other) := by
  induction methods with
  | nil => rfl
  | cons m rest ih =>
    by_cases reached : m.reachedBy name receiver = true
    · have outside : m.receiver ≠ other := receiver_of_reachedBy reached ▸ apart
      simp [updateFirst, reached, keeps, outside]
    · rw [updateFirst, if_neg reached, List.filter_cons, List.filter_cons, ih]

end Update

theorem receiver_withAlias (m : Method) (name : String) :
    (m.withAlias name).receiver = m.receiver := by
  unfold Method.withAlias
  split <;> rfl

namespace Alias

/-- What one statement does. It changes nothing if the first method that its old name leads to has
the new name already, or if there is none. Else that method, and no other, gains the new name. -/
inductive Step (a : Alias) : List Method → List Method → Prop
  | settled {methods : List Method} (known : a.Settled methods) : Step a methods methods
  | given {before after : List Method} {m : Method}
      (first : before.find? (·.reachedBy a.oldName a.receiver) = none)
      (reached : m.reachedBy a.oldName a.receiver = true) (new : a.newName ∉ m.aliases) :
      Step a (before ++ m :: after)
        (before ++ { m with aliases := m.aliases ++ [a.newName] } :: after)

theorem step_record (a : Alias) (methods : List Method) : a.Step methods (a.record methods) := by
  by_cases settled : a.Settled methods
  · rw [record_eq_self_iff.mpr settled]
    exact .settled settled
  · rcases record_cases a methods with ⟨-, same⟩ | ⟨before, m, after, rfl, first, reached, changed⟩
    · exact absurd (record_eq_self_iff.mp same) settled
    · have new : a.newName ∉ m.aliases := by
        intro known
        apply settled
        rw [← record_eq_self_iff, changed, withAlias_eq_self_iff.mpr known]
      rw [changed, Method.withAlias, if_neg (by simpa using new)]
      exact .given first reached new

theorem Step.aliasCount_le {a : Alias} {methods later : List Method} (h : a.Step methods later) :
    aliasCount later ≤ aliasCount methods + 1 := by
  cases h with
  | settled => exact Nat.le_succ _
  | given =>
    simp only [aliasCount, List.flatMap_append, List.flatMap_cons, List.length_append,
      List.length_singleton]
    omega

theorem filter_receiver_record (a : Alias) (receiver : Receiver) (methods : List Method) :
    (a.record methods).filter (·.receiver == receiver) =
      if a.receiver = receiver then a.record (methods.filter (·.receiver == receiver))
      else methods.filter (·.receiver == receiver) := by
  have keeps (m : Method) := receiver_withAlias m a.newName
  split
  · next own =>
    subst own
    exact filter_updateFirst_self keeps methods
  · next apart => exact filter_updateFirst_other apart keeps methods

end Alias

theorem gainsFrom_applyAliases (methods : List Method) (aliases : List Alias) :
    List.Forall₂ (Method.GainsFrom aliases) methods (applyAliases methods aliases) := by
  induction aliases using List.reverseRecOn with
  | nil => exact List.forall₂_same.mpr fun m _ => ⟨[], m.gains_nil, List.nil_sublist _⟩
  | append_singleton aliases a ih =>
    -- What the last statement reaches is a method with all that the others have given it.
    rw [applyAliases_append]
    apply forall₂_updateFirst _ _ ih
    · intro m later gains
      exact gains.skip a
    · intro m later gains reached
      exact gains.withAlias (receiver_of_reachedBy reached)

theorem step_applyAliases (methods : List Method) (done : List Alias) (a : Alias) :
    a.Step (applyAliases methods done) (applyAliases methods (done ++ [a])) := by
  rw [applyAliases_append]
  exact a.step_record (applyAliases methods done)

theorem aliasCount_applyAliases_le (methods : List Method) (aliases : List Alias) :
    aliasCount (applyAliases methods aliases) ≤ aliasCount methods + aliases.length := by
  induction aliases using List.reverseRecOn with
  | nil => exact Nat.le_refl _
  | append_singleton aliases a ih =>
    have step := (step_applyAliases methods aliases a).aliasCount_le
    rw [List.length_append, List.length_singleton]
    omega

theorem filter_receiver_applyAliases (receiver : Receiver) (methods : List Method)
    (aliases : List Alias) :
    (applyAliases methods aliases).filter (·.receiver == receiver) =
      applyAliases (methods.filter (·.receiver == receiver))
        (aliases.filter (·.receiver == receiver)) := by
  induction aliases generalizing methods with
  | nil => rfl
  | cons a rest ih =>
    have later := ih (a.record methods)
    rw [a.filter_receiver_record] at later
    by_cases own : a.receiver = receiver
    · rw [if_pos own] at later
      rw [List.filter_cons_of_pos (by simpa using own)]
      exact later
    · rw [if_neg own] at later
      rw [List.filter_cons_of_neg (by simpa using own)]
      exact later

/-- Alias statements keep the methods and their order, and all of a method but its aliases. Behind
these come names that it did not have, each once, from statements for its receiver. A statement,
when its turn comes, gives its new name to one method at most, so that no more names are gained than
there are statements. What becomes of the methods of one receiver is what the statements for that
receiver alone make of them. -/
theorem aliases_only_extended (methods : List Method) (aliases : List Alias) :
    List.Forall₂ (Method.GainsFrom aliases) methods (applyAliases methods aliases) ∧
      (∀ done a rest, aliases = done ++ a :: rest →
        a.Step (applyAliases methods done) (applyAliases methods (done ++ [a]))) ∧
      aliasCount (applyAliases methods aliases) ≤ aliasCount methods + aliases.length ∧
      ∀ receiver, (applyAliases methods aliases).filter (·.receiver == receiver) =
        applyAliases (methods.filter (·.receiver == receiver))
          (aliases.filter (·.receiver == receiver)) :=
  ⟨gainsFrom_applyAliases methods aliases, fun done a _ _ => step_applyAliases methods done a,
    aliasCount_applyAliases_le methods aliases,
    fun receiver => filter_receiver_applyAliases receiver methods aliases⟩

/-- Statements for instances and for the class itself in turn, one of them made twice. -/
example :
    applyAliases [{ name := "draw" }, { name := "draw", receiver := .singleton }]
        [⟨"paint", "draw", .inst, 3⟩, ⟨"sketch", "draw", .singleton, 4⟩,
          ⟨"render", "paint", .inst, 5⟩, ⟨"paint", "draw", .inst, 6⟩,
          ⟨"render", "paint", .singleton, 7⟩] =
      [{ name := "draw", aliases := ["paint", "render"] },
        { name := "draw", receiver := .singleton, aliases := ["sketch"] }] := by
  decide

end RubyIndex
