import RubyIndex.Proofs.FileOutlines

/-! The namespaces that open bodies fill. A scope knows its namespace by its place in the file and
by its name. The two agree, as statements only append namespaces and leave their names. -/
namespace RubyIndex

theorem Scope.extended_subset_mix (s : Scope) (kind : MixinKind) (names : List String)
    (n : Namespace) : n.extended ⊆ (s.mix kind names n).extended := by
  unfold mix
  split <;> simp

theorem Scope.qualifiedName_mix (s : Scope) (kind : MixinKind) (names : List String)
    (n : Namespace) : (s.mix kind names n).qualifiedName = n.qualifiedName :=
  (congrArg Namespace.qualifiedName (s.bare_mix kind names n) :)

namespace Reading

variable {r r' r'' : Reading} {s : Scope} {statement : Statement}

inductive Sketched (r : Reading) : Reading → Prop
  | same : Sketched r r
  | entered : Sketched r r.current.2
  | changed (s : Scope) (slot : s.slot = r.current.1.slot) (owner : s.owner = r.current.1.owner) :
      Sketched r (r.current.2.setCurrent s)
  | mixed (kind : MixinKind) (names : List String) :
      Sketched r (r.current.2.edit r.current.1 (r.current.1.mix kind names))
  | singleton : Sketched r (r.openSingleton 0)
  | opened (h : Header) : Sketched r (r.openNamespace h 0 none)
  | shut (h : Header) : Sketched r { r.openNamespace h 0 none with scopes := r.scopes }
  | closed {s : Scope} {outer : List Scope} (inside : r.scopes = s :: outer) :
      Sketched r { r with scopes := outer }

theorem sketched_of_sketch? (h : r.sketch? statement = some r') : Sketched r r' := by
  cases statement with
  | close =>
    have popped : r.pop? = some r' := (r.toOption_close 0).symm.trans h
    unfold pop? at popped
    split at popped
    · cases popped
    · next s outer inside =>
      cases popped
      exact .closed inside
  | openSingleton =>
    cases h
    exact .singleton
  | openNamespace header =>
    simp only [sketch?, apply] at h
    split at h
    · cases h
      exact .shut header
    · cases h
      exact .opened header
  | define visibility source =>
    obtain ⟨d, -, h⟩ := Option.bind_eq_some_iff.mp h
    obtain ⟨parameters, -, rfl⟩ := Option.map_eq_some_iff.mp h
    exact .entered
  | setDefault visibility | beginModuleFunctions =>
    cases h
    exact .changed _ rfl rfl
  | mixin kind names =>
    cases h
    exact .mixed kind names
  | aliasGlobal newName oldName | assignGlobal name value | unrecognized source =>
    cases h
    exact .same
  | _ =>
    cases h
    exact .entered

/-- Every namespace stays in its place with its name, and extends what it has extended. -/
def Grows (r r' : Reading) : Prop :=
  ∀ (i : Nat) (n : Namespace), r.namespaces[i]? = some n →
    ∃ n' : Namespace, r'.namespaces[i]? = some n' ∧ n'.qualifiedName = n.qualifiedName ∧
      n.extended ⊆ n'.extended

namespace Grows

theorem of_eq (same : r'.namespaces = r.namespaces) : r.Grows r' := fun _ n found =>
  ⟨n, same ▸ found, rfl, List.Subset.refl _⟩

theorem trans (h : r.Grows r') (h' : r'.Grows r'') : r.Grows r'' := by
  intro i n found
  obtain ⟨n', found', name, kept⟩ := h i n found
  obtain ⟨n'', found'', name', kept'⟩ := h' i n' found'
  exact ⟨n'', found'', name'.trans name, List.Subset.trans kept kept'⟩

theorem of_append (more : List Namespace) (h : r'.namespaces = r.namespaces ++ more) :
    r.Grows r' := fun i n found =>
  ⟨n, by rw [h, List.getElem?_append_left (List.getElem?_eq_some_iff.mp found).1, found], rfl,
    List.Subset.refl _⟩

theorem current (r : Reading) : r.Grows r.current.2 := by
  unfold Reading.current
  split
  · exact of_eq rfl
  · exact of_eq rfl
  · exact of_append _ rfl

theorem edit (r : Reading) (s : Scope) {change : Namespace → Namespace}
    (name : ∀ n, (change n).qualifiedName = n.qualifiedName)
    (kept : ∀ n, n.extended ⊆ (change n).extended) : r.Grows (r.edit s change) := by
  intro i n found
  refine ⟨if s.slot = i then change n else n, ?_, ?_⟩
  · rw [Reading.edit, List.getElem?_modify, found]
    rfl
  · split
    · exact ⟨name n, kept n⟩
    · exact ⟨rfl, List.Subset.refl _⟩

end Grows

theorem namespaces_setCurrent (r : Reading) (s : Scope) :
    (r.setCurrent s).namespaces = r.namespaces := by
  unfold setCurrent
  split <;> rfl

theorem Sketched.grows (h : Sketched r r') : r.Grows r' := by
  cases h with
  | same => exact .of_eq rfl
  | entered => exact .current r
  | changed s slot owner => exact (Grows.current r).trans (.of_eq (namespaces_setCurrent _ s))
  | mixed kind names =>
    exact (Grows.current r).trans (.edit _ _ (Scope.qualifiedName_mix _ kind names)
      (Scope.extended_subset_mix _ kind names))
  | singleton => exact (Grows.current r).trans (.of_eq rfl)
  | opened h | shut h =>
    rw [openNamespace_eq]
    exact .of_append _ rfl
  | closed inside => exact .of_eq rfl

def Fills (r : Reading) (s : Scope) : Prop :=
  ∃ n : Namespace, r.namespaces[s.slot]? = some n ∧ n.qualifiedName = s.owner

theorem Fills.grow (h : r.Fills s) (grows : r.Grows r') : r'.Fills s := by
  obtain ⟨n, found, name⟩ := h
  obtain ⟨n', found', name', -⟩ := grows s.slot n found
  exact ⟨n', found', name'.trans name⟩

structure Slotted (r : Reading) : Prop where
  scopes : ∀ s ∈ r.scopes, r.Fills s
  outermost : ∀ s ∈ r.outermost, r.Fills s

theorem slotted_empty (path : String) : Slotted { path := path } := by
  constructor <;> simp

theorem slotted_current (h : r.Slotted) : r.current.2.Slotted ∧ r.current.2.Fills r.current.1 := by
  obtain ⟨path, namespaces, _ | ⟨inner, outer⟩, _ | s, globals, diagnostics, comments⟩ := r
  · refine ⟨⟨by simp [current, addNamespace], ?_⟩, ?_⟩
    · intro s hs
      cases hs
      exact ⟨_, List.getElem?_concat_length, rfl⟩
    · exact ⟨_, List.getElem?_concat_length, rfl⟩
  · exact ⟨h, h.outermost s rfl⟩
  · exact ⟨h, h.scopes inner List.mem_cons_self⟩
  · exact ⟨h, h.scopes inner List.mem_cons_self⟩

theorem slotted_setCurrent (h : r.Slotted) (fills : r.Fills s) : (r.setCurrent s).Slotted := by
  obtain ⟨path, namespaces, _ | ⟨inner, outer⟩, outermost, globals, diagnostics, comments⟩ := r
  · refine ⟨h.scopes, fun s' hs => ?_⟩
    cases hs
    exact fills
  · exact ⟨List.forall_mem_cons.mpr ⟨fills, (List.forall_mem_cons.mp h.scopes).2⟩, h.outermost⟩

theorem slotted_openNamespace (h : r.Slotted) (header : Header) :
    (r.openNamespace header 0 none).Slotted := by
  have grows := (Sketched.opened header : Sketched r _).grows
  refine ⟨?_, fun s hs => (h.outermost s hs).grow grows⟩
  rw [openNamespace_eq] at grows ⊢
  refine List.forall_mem_cons.mpr ⟨?_, fun s hs => (h.scopes s hs).grow grows⟩
  exact ⟨_, List.getElem?_concat_length, rfl⟩

theorem Sketched.slotted (step : Sketched r r') (h : r.Slotted) : r'.Slotted := by
  have grows := step.grows
  obtain ⟨current, fills⟩ := slotted_current h
  cases step with
  | same => exact h
  | entered => exact current
  | changed s slot owner =>
    have same : r.current.2.Fills s := by
      rw [Fills, slot, owner]
      exact fills
    exact slotted_setCurrent current same
  | mixed kind names =>
    have kept := Grows.edit r.current.2 r.current.1
      (Scope.qualifiedName_mix r.current.1 kind names) (Scope.extended_subset_mix _ kind names)
    exact ⟨fun s hs => (current.scopes s hs).grow kept,
      fun s hs => (current.outermost s hs).grow kept⟩
  | singleton =>
    exact ⟨List.forall_mem_cons.mpr ⟨fills, current.scopes⟩, current.outermost⟩
  | opened header => exact slotted_openNamespace h header
  | shut header =>
    exact ⟨fun s hs => (h.scopes s hs).grow grows, (slotted_openNamespace h header).outermost⟩
  | closed inside =>
    exact ⟨fun s hs => h.scopes s (by simp [inside, hs]), h.outermost⟩

theorem foldlM_sketch? {statements : List Statement} (h : r.Slotted)
    (run : statements.foldlM sketch? r = some r') : r'.Slotted ∧ r.Grows r' := by
  induction statements generalizing r with
  | nil =>
    cases run
    exact ⟨h, .of_eq rfl⟩
  | cons statement statements ih =>
    rw [List.foldlM_cons] at run
    obtain ⟨next, step, run⟩ := Option.bind_eq_some_iff.mp run
    have sketched := sketched_of_sketch? step
    obtain ⟨slotted, grows⟩ := ih (sketched.slotted h) run
    exact ⟨slotted, sketched.grows.trans grows⟩

theorem slotted_of_foldlM {path : String} {lines : List (List Char)}
    (read : (lines.zipIdx 1).foldlM step { path := path } = .ok r) : r.outline.Slotted := by
  have sketched := map_outline_foldlM { path := path } lines 1
  rw [read] at sketched
  exact (foldlM_sketch? (slotted_empty path) sketched.symm).1

/-- Definitions go to a namespace that is there. -/
theorem fills_current {path : String} {lines : List (List Char)}
    (read : (lines.zipIdx 1).foldlM step { path := path } = .ok r) :
    r.current.2.Fills r.current.1 := by
  obtain ⟨n, found, name⟩ := (slotted_current (slotted_of_foldlM read)).2
  rw [current_outline] at found name
  change (r.current.2.namespaces.map Namespace.outline)[r.current.1.slot]? = some n at found
  rw [List.getElem?_map] at found
  obtain ⟨n', found', rfl⟩ := Option.map_eq_some_iff.mp found
  exact ⟨n', found', name⟩

theorem map_outline_of_finish? {f : StubFile} (h : r.finish? = some f) :
    f.namespaces.map Namespace.outline = r.namespaces.map Namespace.outline := by
  unfold finish? finish at h
  split at h
  · cases h
  · cases h
    rw [List.map_map]
    rfl

end Reading

end RubyIndex
