import Mathlib.Data.List.Count
import RubyIndex.Proofs.ReopenedVisibility

/-! Copies of methods. Module functions are methods that have a public copy on the module itself. A
copy behind a method of its receiver and name is reached by no name, so that whatever is done to the
methods of a namespace passes it by. -/
namespace RubyIndex

section Search

variable {name : String} {receiver : Receiver} {change : Method → Method}
  {first rest : List Method}

theorem updateFirst_append_of_absent (change : Method → Method) (rest : List Method)
    (absent : first.find? (·.reachedBy name receiver) = none) :
    updateFirst name receiver change (first ++ rest) =
      first ++ updateFirst name receiver change rest := by
  induction first with
  | nil => rfl
  | cons m first ih =>
    rw [List.find?_cons] at absent
    split at absent
    · cases absent
    · next passed =>
      rw [List.cons_append, updateFirst, if_neg (by simp [passed]), ih absent, List.cons_append]

theorem updateFirst_of_absent (change : Method → Method)
    (absent : first.find? (·.reachedBy name receiver) = none) :
    updateFirst name receiver change first = first := by
  have appended := updateFirst_append_of_absent change [] absent
  rwa [updateFirst, List.append_nil] at appended

theorem updateFirst_append_of_found (change : Method → Method) (rest : List Method)
    (found : first.find? (·.reachedBy name receiver) ≠ none) :
    updateFirst name receiver change (first ++ rest) =
      updateFirst name receiver change first ++ rest := by
  induction first with
  | nil => exact absurd rfl found
  | cons m first ih =>
    rw [List.cons_append, updateFirst, updateFirst]
    by_cases reached : m.reachedBy name receiver = true
    · rw [if_pos reached, if_pos reached, List.cons_append]
    · rw [List.find?_cons, Bool.eq_false_iff.mpr reached] at found
      rw [if_neg reached, if_neg reached, ih found, List.cons_append]

end Search

/-- The other methods are the methods with copies among them, each behind a method of its receiver
and name. -/
def WithCopies (copies methods others : List Method) : Prop :=
  ∃ first rest, methods = first ++ rest ∧ others = first ++ copies ++ rest ∧
    ∀ c ∈ copies, c.aliases = [] ∧ c.key ∈ first.map (·.key)

namespace WithCopies

variable {copies methods others : List Method}

theorem nil (methods : List Method) : WithCopies [] methods methods :=
  ⟨methods, [], (List.append_nil _).symm, by simp, List.forall_mem_nil _⟩

theorem append (h : WithCopies copies methods others) (more : List Method) :
    WithCopies copies (methods ++ more) (others ++ more) := by
  obtain ⟨first, rest, rfl, rfl, shadowed⟩ := h
  exact ⟨first, rest ++ more, List.append_assoc _ _ _, List.append_assoc _ _ _, shadowed⟩

theorem eq_of_nil (h : WithCopies [] methods others) : others = methods := by
  obtain ⟨first, rest, rfl, rfl, -⟩ := h
  rw [List.append_nil]

theorem perm (h : WithCopies copies methods others) : others.Perm (methods ++ copies) := by
  obtain ⟨first, rest, rfl, rfl, -⟩ := h
  rw [List.append_assoc, List.append_assoc]
  exact List.perm_append_comm.append_left first

/-- A name that a copy has reaches a method before it. -/
theorem absent_of_absent {first : List Method} {name : String} {receiver : Receiver}
    (shadowed : ∀ c ∈ copies, c.aliases = [] ∧ c.key ∈ first.map (·.key))
    (absent : first.find? (·.reachedBy name receiver) = none) :
    copies.find? (·.reachedBy name receiver) = none := by
  rw [List.find?_eq_none] at absent ⊢
  intro c hc reached
  obtain ⟨unaliased, key⟩ := shadowed c hc
  have own : c.key = (receiver, name) := by
    simpa [Method.reachedBy, Method.answersTo, Method.key, unaliased] using reached
  obtain ⟨m, hm, same⟩ := List.mem_map.mp key
  obtain ⟨onReceiver, named⟩ := Prod.ext_iff.mp (same.trans own)
  exact absent m hm (by simp_all [Method.reachedBy, Method.answersTo, Method.key])

theorem find?_eq (h : WithCopies copies methods others) (name : String) (receiver : Receiver) :
    others.find? (·.reachedBy name receiver) = methods.find? (·.reachedBy name receiver) := by
  obtain ⟨first, rest, rfl, rfl, shadowed⟩ := h
  rw [List.append_assoc, List.find?_append, List.find?_append, List.find?_append]
  cases found : first.find? (·.reachedBy name receiver) with
  | none => rw [absent_of_absent shadowed found, Option.none_or, Option.none_or]
  | some m => rfl

theorem update (h : WithCopies copies methods others) (change : Method → Method)
    (keeps : ∀ m, (change m).key = m.key) (name : String) (receiver : Receiver) :
    WithCopies copies (updateFirst name receiver change methods)
      (updateFirst name receiver change others) := by
  obtain ⟨first, rest, rfl, rfl, shadowed⟩ := h
  rw [List.append_assoc]
  by_cases absent : first.find? (·.reachedBy name receiver) = none
  · rw [updateFirst_append_of_absent change _ absent, updateFirst_append_of_absent change _ absent,
      updateFirst_append_of_absent change _ (absent_of_absent shadowed absent)]
    exact ⟨first, _, rfl, (List.append_assoc _ _ _).symm, shadowed⟩
  · rw [updateFirst_append_of_found change _ absent, updateFirst_append_of_found change _ absent]
    refine ⟨_, rest, rfl, (List.append_assoc _ _ _).symm, ?_⟩
    rwa [map_updateFirst (·.key) change keeps]

theorem foldl {α : Type} {step : List Method → α → List Method}
    (keeps : ∀ {methods others} (a : α), WithCopies copies methods others →
      WithCopies copies (step methods a) (step others a))
    (h : WithCopies copies methods others) (l : List α) :
    WithCopies copies (l.foldl step methods) (l.foldl step others) := by
  induction l generalizing methods others with
  | nil => exact h
  | cons a l ih => exact ih (keeps a h)

theorem publish (h : WithCopies copies methods others) (s : Scope) (visibility : Visibility)
    (names : List String) : WithCopies copies (names.foldl (s.publish visibility) methods)
      (names.foldl (s.publish visibility) others) := by
  refine h.foldl (fun name h => ?_) names
  exact h.update (fun m => { m with visibility := visibility }) (fun _ => rfl) name s.receiver

theorem makeModuleFunctions (h : WithCopies copies methods others) (names : List String) :
    WithCopies copies (names.foldl makeModuleFunction methods)
      (names.foldl makeModuleFunction others) := by
  refine h.foldl (fun name h => ?_) names
  have hidden := h.update (fun m => { m with visibility := .priv }) (fun _ => rfl) name .inst
  unfold makeModuleFunction
  rw [h.find?_eq]
  split
  · exact h
  · exact hidden.append _

theorem applyAliases (h : WithCopies copies methods others) (aliases : List Alias) :
    WithCopies copies (applyAliases methods aliases) (applyAliases others aliases) := by
  refine h.foldl (fun a h => ?_) aliases
  refine h.update (·.withAlias a.newName) (fun m => ?_) a.oldName a.receiver
  unfold Method.withAlias
  split <;> rfl

end WithCopies

def Method.onModule (m : Method) : Method :=
  { m with receiver := .singleton, visibility := .pub }

def hide (methods : List Method) (name : String) : List Method :=
  updateFirst name .inst (fun m => { m with visibility := .priv }) methods

def moduleCopies (names : List String) (methods : List Method) : List Method :=
  names.filterMap fun name => (methods.find? (·.reachedBy name .inst)).map Method.onModule

section ModuleFunctions

variable {methods : List Method} {name other : String} {names : List String}

theorem singleton_of_mem_moduleCopies {c : Method} (h : c ∈ moduleCopies names methods) :
    c.receiver = .singleton := by
  obtain ⟨name, -, found⟩ := List.mem_filterMap.mp h
  obtain ⟨m, -, rfl⟩ := Option.map_eq_some_iff.mp found
  rfl

theorem find?_inst_of_singletons {singletons : List Method}
    (h : ∀ c ∈ singletons, c.receiver = .singleton) (name : String) :
    singletons.find? (·.reachedBy name .inst) = none := by
  rw [List.find?_eq_none]
  intro c hc reached
  have onInstance := receiver_of_reachedBy reached
  rw [h c hc] at onInstance
  cases onInstance

theorem makeModuleFunction_eq (methods : List Method) (name : String) :
    makeModuleFunction methods name = hide methods name ++ moduleCopies [name] methods := by
  unfold makeModuleFunction
  split
  · next absent =>
    rw [hide, updateFirst_of_absent _ absent]
    simp [moduleCopies, absent]
  · next m found => simp [hide, moduleCopies, found, Method.onModule]

theorem hide_append (methods : List Method) {singletons : List Method}
    (h : ∀ c ∈ singletons, c.receiver = .singleton) (name : String) :
    hide (methods ++ singletons) name = hide methods name ++ singletons := by
  have passed := find?_inst_of_singletons h name
  by_cases absent : methods.find? (·.reachedBy name .inst) = none
  · rw [hide, updateFirst_append_of_absent _ _ absent, updateFirst_of_absent _ passed, hide,
      updateFirst_of_absent _ absent]
  · exact updateFirst_append_of_found _ _ absent

theorem moduleCopies_append (names : List String) (methods : List Method)
    {singletons : List Method} (h : ∀ c ∈ singletons, c.receiver = .singleton) :
    moduleCopies names (methods ++ singletons) = moduleCopies names methods := by
  refine List.filterMap_congr fun name _ => ?_
  rw [List.find?_append, find?_inst_of_singletons h name, Option.or_none]

/-- A method that is made private is copied all the same. -/
theorem moduleCopies_hide (names : List String) (methods : List Method) (other : String) :
    moduleCopies names (hide methods other) = moduleCopies names methods := by
  refine List.filterMap_congr fun name _ => ?_
  let shown (m : Method) : Method := { m with visibility := .pub }
  have shown_find? (l : List Method) :
      (l.map shown).find? (·.reachedBy name .inst) =
        (l.find? (·.reachedBy name .inst)).map shown := by
    rw [List.find?_map]
    rfl
  have same : (hide methods other).map shown = methods.map shown :=
    map_updateFirst shown (fun m => { m with visibility := .priv }) (fun _ => rfl) other .inst
      methods
  have found := congrArg (List.find? (·.reachedBy name .inst)) same
  rw [shown_find?, shown_find?] at found
  have copied := congrArg (Option.map fun m : Method => { m with receiver := .singleton }) found
  rwa [Option.map_map, Option.map_map] at copied

/-- A statement hides what it names, and adds the copies behind all that is there. -/
theorem foldl_makeModuleFunction (names : List String) (methods : List Method)
    {singletons : List Method} (h : ∀ c ∈ singletons, c.receiver = .singleton) :
    names.foldl makeModuleFunction (methods ++ singletons) =
      names.foldl hide methods ++ singletons ++ moduleCopies names methods := by
  induction names generalizing methods singletons with
  | nil => simp [moduleCopies]
  | cons name names ih =>
    have copies : ∀ c ∈ singletons ++ moduleCopies [name] methods, c.receiver = .singleton :=
      List.forall_mem_append.mpr ⟨h, fun c hc => singleton_of_mem_moduleCopies hc⟩
    have split : moduleCopies (name :: names) methods =
        moduleCopies [name] methods ++ moduleCopies names methods :=
      List.filterMap_append (l := [name])
    rw [List.foldl_cons, makeModuleFunction_eq, hide_append methods h,
      moduleCopies_append [name] methods h, List.append_assoc, ih _ copies, moduleCopies_hide,
      List.foldl_cons, split]
    simp only [List.append_assoc]

theorem makeModuleFunctions_eq (names : List String) (methods : List Method) :
    names.foldl makeModuleFunction methods =
      names.foldl hide methods ++ moduleCopies names methods := by
  have made := foldl_makeModuleFunction names methods (List.forall_mem_nil _)
  rwa [List.append_nil, List.append_nil] at made

/-- Whether what is private anyway is what a name reaches. -/
def Hidden (methods : List Method) (name : String) : Prop :=
  ∀ m, methods.find? (·.reachedBy name .inst) = some m → m.visibility = .priv

theorem hide_of_hidden (h : Hidden methods name) : hide methods name = methods := by
  rcases updateFirst_cases name .inst (fun m => { m with visibility := .priv }) methods with
    ⟨-, same⟩ | ⟨before, m, after, rfl, first, reached, changed⟩
  · exact same
  · have private_already : m.visibility = .priv :=
      h m (by rw [List.find?_append, first, Option.none_or, List.find?_cons, reached])
    rw [hide, changed, ← private_already]

/-- A name reaches what it has reached before, or what has been hidden. -/
theorem find?_hide {m : Method}
    (found : (hide methods other).find? (·.reachedBy name .inst) = some m) :
    methods.find? (·.reachedBy name .inst) = some m ∨ m.visibility = .priv := by
  rcases updateFirst_cases other .inst (fun m => { m with visibility := .priv }) methods with
    ⟨-, same⟩ | ⟨before, x, after, rfl, -, -, changed⟩
  · rw [hide, same] at found
    exact Or.inl found
  · rw [hide, changed, List.find?_append] at found
    rw [List.find?_append]
    cases first : before.find? (·.reachedBy name .inst) with
    | some y =>
      rw [first] at found
      exact Or.inl found
    | none =>
      rw [first, Option.none_or, List.find?_cons] at found
      split at found
      · exact Or.inr (by cases found; rfl)
      · next passed =>
        have passed : x.reachedBy name .inst = false := passed
        exact Or.inl (by rw [Option.none_or, List.find?_cons, passed]; exact found)

theorem Hidden.hide (h : Hidden methods name) (other : String) : Hidden (hide methods other) name :=
  fun m found => (find?_hide found).elim (h m) id

theorem hidden_hide (methods : List Method) (name : String) : Hidden (hide methods name) name := by
  intro m found
  rcases updateFirst_cases name .inst (fun m => { m with visibility := .priv }) methods with
    ⟨absent, same⟩ | ⟨before, x, after, rfl, first, reached, changed⟩
  · rw [RubyIndex.hide, same, absent] at found
    cases found
  · have reached : ({ x with visibility := .priv } : Method).reachedBy name .inst = true := reached
    rw [RubyIndex.hide, changed, List.find?_append, first, Option.none_or, List.find?_cons,
      reached] at found
    cases found
    rfl

theorem Hidden.foldl (h : Hidden methods name) (names : List String) :
    Hidden (names.foldl RubyIndex.hide methods) name := by
  induction names generalizing methods with
  | nil => exact h
  | cons other names ih => exact ih (h.hide other)

theorem hidden_foldl_hide (names : List String) (methods : List Method) :
    ∀ name ∈ names, Hidden (names.foldl hide methods) name := by
  induction names generalizing methods with
  | nil => exact List.forall_mem_nil _
  | cons name names ih =>
    exact List.forall_mem_cons.mpr ⟨(hidden_hide methods name).foldl names, ih _⟩

theorem foldl_hide_of_hidden (h : ∀ name ∈ names, Hidden methods name) :
    names.foldl hide methods = methods := by
  induction names with
  | nil => rfl
  | cons name names ih =>
    obtain ⟨first, others⟩ := List.forall_mem_cons.mp h
    rw [List.foldl_cons, hide_of_hidden first, ih others]

theorem moduleCopies_foldl_hide (names more : List String) (methods : List Method) :
    moduleCopies names (more.foldl hide methods) = moduleCopies names methods := by
  induction more generalizing methods with
  | nil => rfl
  | cons other more ih => rw [List.foldl_cons, ih, moduleCopies_hide]

/-- The same statement once more hides nothing else, and adds the same copies again. -/
theorem foldl_makeModuleFunction_again (names : List String) (methods : List Method) :
    names.foldl makeModuleFunction (names.foldl makeModuleFunction methods) =
      names.foldl makeModuleFunction methods ++ moduleCopies names methods := by
  have copies : ∀ c ∈ moduleCopies names methods, c.receiver = .singleton :=
    fun c hc => singleton_of_mem_moduleCopies hc
  have once := makeModuleFunctions_eq names methods
  rw [once, foldl_makeModuleFunction names _ copies, moduleCopies_foldl_hide,
    foldl_hide_of_hidden (hidden_foldl_hide names methods)]

theorem Unaliased.find?_eq_none_iff (unaliased : Unaliased methods) (name : String)
    (receiver : Receiver) : methods.find? (·.reachedBy name receiver) = none ↔
      (receiver, name) ∉ methods.map (·.key) := by
  rw [List.find?_eq_none, List.mem_map, not_exists]
  refine forall_congr' fun m => ?_
  rw [not_and]
  exact forall_congr' fun hm => not_congr (unaliased.reachedBy_iff hm)

/-- The copies are those of the named methods that there are. -/
theorem Unaliased.map_key_moduleCopies (unaliased : Unaliased methods) (names : List String) :
    (moduleCopies names methods).map (·.key) =
      (names.filter fun name => (.inst, name) ∈ methods.map (·.key)).map (.singleton, ·) := by
  induction names with
  | nil => rfl
  | cons name names ih =>
    have absent := unaliased.find?_eq_none_iff name .inst
    cases found : methods.find? (·.reachedBy name .inst) with
    | none =>
      have unnamed := absent.mp found
      have rest : moduleCopies (name :: names) methods = moduleCopies names methods :=
        List.filterMap_cons_none (by rw [found]; rfl)
      rw [rest, ih, List.filter_cons_of_neg (by simpa using unnamed)]
    | some m =>
      have named : m.name = name := by
        have reached := List.find?_some found
        have key := (unaliased.reachedBy_iff (List.mem_of_find?_eq_some found)).mp reached
        exact congrArg Prod.snd key
      have declared : (.inst, name) ∈ methods.map (·.key) := by
        by_contra undeclared
        rw [absent.mpr undeclared] at found
        cases found
      have rest : moduleCopies (name :: names) methods =
          m.onModule :: moduleCopies names methods :=
        List.filterMap_cons_some (by rw [found]; rfl)
      rw [rest, List.map_cons, ih, List.filter_cons_of_pos (by simpa using declared), List.map_cons]
      exact congrArg (· :: _) (Prod.ext rfl named)

theorem Unaliased.count_key_moduleCopies (unaliased : Unaliased methods) (names : List String)
    (name : String) : ((moduleCopies names methods).map (·.key)).count (.singleton, name) =
      if (.inst, name) ∈ methods.map (·.key) then names.count name else 0 := by
  have injective : Function.Injective fun name : String => (Receiver.singleton, name) :=
    fun _ _ same => (Prod.ext_iff.mp same).2
  rw [unaliased.map_key_moduleCopies, List.count_map_of_injective _ _ injective]
  by_cases declared : (.inst, name) ∈ methods.map (·.key)
  · rw [if_pos declared, List.count_filter (by simpa using declared)]
  · rw [if_neg declared, List.count_eq_zero]
    intro listed
    exact declared (of_decide_eq_true (List.mem_filter.mp listed).2)

theorem Unaliased.moduleCopies_eq_nil_iff (unaliased : Unaliased methods) (names : List String) :
    moduleCopies names methods = [] ↔ ∀ name ∈ names, (.inst, name) ∉ methods.map (·.key) := by
  have keys := unaliased.map_key_moduleCopies names
  rw [← List.map_eq_nil_iff (f := Method.key), keys, List.map_eq_nil_iff, List.filter_eq_nil_iff]
  simp

theorem Unaliased.withCopies_again (unaliased : Unaliased methods) (names : List String) :
    WithCopies (moduleCopies names methods) (names.foldl makeModuleFunction methods)
      (names.foldl makeModuleFunction (names.foldl makeModuleFunction methods)) := by
  refine ⟨names.foldl makeModuleFunction methods, [], (List.append_nil _).symm, ?_, fun c hc => ?_⟩
  · rw [foldl_makeModuleFunction_again, List.append_nil]
  · obtain ⟨name, -, copied⟩ := List.mem_filterMap.mp hc
    obtain ⟨m, found, rfl⟩ := Option.map_eq_some_iff.mp copied
    refine ⟨unaliased m (List.mem_of_find?_eq_some found), ?_⟩
    rw [makeModuleFunctions_eq, List.map_append]
    exact List.mem_append_right _ (List.mem_map_of_mem hc)

/-- The keys that there are stay, and those of the copies come behind them. -/
theorem map_key_makeModuleFunctions (names : List String) (methods : List Method) :
    (names.foldl makeModuleFunction methods).map (·.key) =
      methods.map (·.key) ++ (moduleCopies names methods).map (·.key) := by
  have hidden : (names.foldl hide methods).map (·.key) = methods.map (·.key) :=
    map_key_publish { slot := 0, owner := "" } .priv names methods
  rw [makeModuleFunctions_eq, List.map_append, hidden]

end ModuleFunctions

end RubyIndex
