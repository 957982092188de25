import Mathlib.Data.List.Forall2
import Mathlib.Data.Option.Basic
import RubyIndex.Proofs.RelabelledMethods
import RubyIndex.Proofs.ShadowedCopies

/-! Readings that have the same behind them but for copies of methods in one namespace. What follows
is read alike, on whatever lines it stands, and leaves the copies where they are. -/
namespace RubyIndex

def Method.unnumbered : Method → Method := Method.relabel (fun _ => 0) id

theorem WithCopies.unnumbered {copies methods others : List Method}
    (h : WithCopies copies methods others) :
    WithCopies (copies.map Method.unnumbered) (methods.map Method.unnumbered)
      (others.map Method.unnumbered) := by
  obtain ⟨first, rest, rfl, rfl, shadowed⟩ := h
  refine ⟨first.map Method.unnumbered, rest.map Method.unnumbered, List.map_append, by simp, ?_⟩
  rw [List.forall_mem_map, List.map_map]
  exact shadowed

def Constant.unnumbered (c : Constant) : Constant := { c with line := 0 }

def Alias.unnumbered (a : Alias) : Alias := { a with line := 0 }

namespace Namespace

/-- The namespace apart from its methods and from the lines that it and its members stand on. -/
def unnumbered (n : Namespace) : Namespace :=
  { n with
    constants := n.constants.map Constant.unnumbered
    methods := []
    aliases := n.aliases.map Alias.unnumbered
    line := 0 }

def unnumberedMethods (n : Namespace) : List Method := n.methods.map Method.unnumbered

structure Copied (copies : List Method) (n other : Namespace) : Prop where
  rest : other.unnumbered = n.unnumbered
  methods : WithCopies copies n.unnumberedMethods other.unnumberedMethods

namespace Copied

variable {copies : List Method} {n other : Namespace}

theorem refl (n : Namespace) : n.Copied [] n := ⟨rfl, .nil _⟩

theorem define (h : n.Copied copies other) {s t : Scope} (scope : t.outline = s.outline)
    {m m' : Method} (same : m'.unnumbered = m.unnumbered) :
    Copied copies { n with methods := n.methods ++ s.place m }
      { other with methods := other.methods ++ t.place m' } := by
  have placed : (t.place m').map Method.unnumbered = (s.place m).map Method.unnumbered := by
    have alike : t.place m' = s.place m' := (congrArg (·.place m') scope :)
    rw [alike]
    exact (s.map_relabel_place _ _ m').trans
      ((congrArg s.place same).trans (s.map_relabel_place _ _ m).symm)
  refine ⟨h.rest, ?_⟩
  unfold unnumberedMethods
  rw [List.map_append, List.map_append, placed]
  exact h.methods.append _

theorem publish (h : n.Copied copies other) {s t : Scope} (scope : t.outline = s.outline)
    (visibility : Visibility) (names : List String) :
    Copied copies { n with methods := names.foldl (s.publish visibility) n.methods }
      { other with methods := names.foldl (t.publish visibility) other.methods } := by
  have alike : t.publish visibility = s.publish visibility :=
    (congrArg (·.publish visibility) scope :)
  have labelled (l : List Method) : (names.foldl (s.publish visibility) l).map Method.unnumbered =
      names.foldl (s.publish visibility) (l.map Method.unnumbered) :=
    (List.foldl_hom (List.map Method.unnumbered) fun l name =>
      (s.map_relabel_publish _ _ visibility l name).symm).symm
  refine ⟨h.rest, ?_⟩
  unfold unnumberedMethods
  rw [alike, labelled, labelled]
  exact h.methods.publish s visibility names

theorem makeModuleFunctions (h : n.Copied copies other) (names : List String) :
    Copied copies { n with methods := names.foldl makeModuleFunction n.methods }
      { other with methods := names.foldl makeModuleFunction other.methods } := by
  have labelled (l : List Method) : (names.foldl makeModuleFunction l).map Method.unnumbered =
      names.foldl makeModuleFunction (l.map Method.unnumbered) :=
    (List.foldl_hom (List.map Method.unnumbered) fun l name =>
      (map_relabel_makeModuleFunction _ _ l name).symm).symm
  refine ⟨h.rest, ?_⟩
  unfold unnumberedMethods
  rw [labelled, labelled]
  exact h.methods.makeModuleFunctions names

theorem rename (h : n.Copied copies other) {a b : Alias} (same : b.unnumbered = a.unnumbered) :
    Copied copies { n with aliases := n.aliases ++ [a] }
      { other with aliases := other.aliases ++ [b] } := by
  have labelled (n : Namespace) (a : Alias) :
      unnumbered { n with aliases := n.aliases ++ [a] } =
        { n.unnumbered with aliases := n.unnumbered.aliases ++ [a.unnumbered] } := by
    simp [unnumbered]
  exact ⟨by rw [labelled, labelled, h.rest, same], h.methods⟩

theorem constant (h : n.Copied copies other) {c d : Constant} (same : d.unnumbered = c.unnumbered) :
    Copied copies { n with constants := n.constants ++ [c] }
      { other with constants := other.constants ++ [d] } := by
  have labelled (n : Namespace) (c : Constant) :
      unnumbered { n with constants := n.constants ++ [c] } =
        { n.unnumbered with constants := n.unnumbered.constants ++ [c.unnumbered] } := by
    simp [unnumbered]
  exact ⟨by rw [labelled, labelled, h.rest, same], h.methods⟩

theorem mix (h : n.Copied copies other) {s t : Scope} (scope : t.outline = s.outline)
    (kind : MixinKind) (names : List String) :
    Copied copies (s.mix kind names n) (t.mix kind names other) := by
  have alike : t.mix kind names other = s.mix kind names other :=
    (congrArg (·.mix kind names other) scope :)
  have labelled (n : Namespace) :
      (s.mix kind names n).unnumbered = s.mix kind names n.unnumbered := by
    unfold Scope.mix
    cases kind <;> cases s.receiver <;> rfl
  have kept (n : Namespace) : (s.mix kind names n).unnumberedMethods = n.unnumberedMethods := by
    unfold Scope.mix
    cases kind <;> cases s.receiver <;> rfl
  rw [alike]
  refine ⟨by rw [labelled, labelled, h.rest], ?_⟩
  rw [kept, kept]
  exact h.methods

theorem applyAliases (h : n.Copied copies other) :
    Copied copies { n with methods := applyAliases n.methods n.aliases }
      { other with methods := applyAliases other.methods other.aliases } := by
  have aliases : other.aliases.map Alias.unnumbered = n.aliases.map Alias.unnumbered :=
    congrArg (·.aliases) h.rest
  have recorded (methods : List Method) (aliases : List Alias) :
      (RubyIndex.applyAliases methods aliases).map Method.unnumbered =
        RubyIndex.applyAliases (methods.map Method.unnumbered) (aliases.map Alias.unnumbered) := by
    unfold RubyIndex.applyAliases
    rw [List.foldl_map]
    exact map_relabel_applyAliases _ _ methods aliases
  refine ⟨h.rest, ?_⟩
  unfold unnumberedMethods
  rw [recorded, recorded, aliases]
  exact h.methods.applyAliases _

end Copied

end Namespace

structure CopiedIn (slot : Nat) (copies : List Method) (namespaces others : List Namespace) :
    Prop where
  length : others.length = namespaces.length
  copied : ∀ (i : Nat) (n other : Namespace), namespaces[i]? = some n → others[i]? = some other →
    n.Copied (if i = slot then copies else []) other

namespace CopiedIn

variable {slot : Nat} {copies : List Method} {namespaces others : List Namespace}

theorem concat (h : CopiedIn slot copies namespaces others) (inside : slot < namespaces.length)
    {n other : Namespace} (same : n.Copied [] other) :
    CopiedIn slot copies (namespaces ++ [n]) (others ++ [other]) := by
  refine ⟨by simp [h.length], fun i m m' found found' => ?_⟩
  have bound : i < (namespaces ++ [n]).length := (List.getElem?_eq_some_iff.mp found).1
  rw [List.length_append, List.length_singleton] at bound
  by_cases last : i = namespaces.length
  · subst last
    rw [List.getElem?_concat_length] at found
    rw [← h.length, List.getElem?_concat_length] at found'
    cases found
    cases found'
    rwa [if_neg (by omega)]
  · rw [List.getElem?_append_left (by omega)] at found
    rw [List.getElem?_append_left (by rw [h.length]; omega)] at found'
    exact h.copied i m m' found found'

theorem modify (h : CopiedIn slot copies namespaces others) (k : Nat)
    {change change' : Namespace → Namespace}
    (changes : ∀ copies n other, n.Copied copies other → (change n).Copied copies (change' other)) :
    CopiedIn slot copies (namespaces.modify k change) (others.modify k change') := by
  refine ⟨?_, fun i n other found found' => ?_⟩
  · rw [List.length_modify, List.length_modify, h.length]
  rw [List.getElem?_modify] at found found'
  obtain ⟨m, hm, rfl⟩ := Option.map_eq_some_iff.mp found
  obtain ⟨m', hm', rfl⟩ := Option.map_eq_some_iff.mp found'
  have before := h.copied i m m' hm hm'
  by_cases here : k = i
  · rw [if_pos here, if_pos here]
    exact changes _ m m' before
  · rw [if_neg here, if_neg here]
    exact before

theorem map (h : CopiedIn slot copies namespaces others) {change : Namespace → Namespace}
    (changes : ∀ copies n other, n.Copied copies other → (change n).Copied copies (change other)) :
    CopiedIn slot copies (namespaces.map change) (others.map change) := by
  refine ⟨by rw [List.length_map, List.length_map, h.length], fun i n other found found' => ?_⟩
  rw [List.getElem?_map] at found found'
  obtain ⟨m, hm, rfl⟩ := Option.map_eq_some_iff.mp found
  obtain ⟨m', hm', rfl⟩ := Option.map_eq_some_iff.mp found'
  exact changes _ m m' (h.copied i m m' hm hm')

end CopiedIn

def Scope.Alike (s t : Scope) : Prop := t.outline = s.outline

namespace Reading

/-- What has been read of two texts one of which has made copies in one place. -/
structure Mirrors (slot : Nat) (copies : List Method) (r r' : Reading) : Prop where
  path : r'.path = r.path
  comments : r'.comments = r.comments
  scopes : List.Forall₂ Scope.Alike r.scopes r'.scopes
  outermost : Option.Rel Scope.Alike r.outermost r'.outermost
  inside : slot < r.namespaces.length
  namespaces : CopiedIn slot copies r.namespaces r'.namespaces

namespace Mirrors

variable {slot : Nat} {copies : List Method} {r r' q : Reading}

theorem addNamespace (h : Mirrors slot copies r r') {n other : Namespace}
    (same : n.Copied [] other) :
    Mirrors slot copies (r.addNamespace n) (r'.addNamespace other) where
  path := h.path
  comments := h.comments
  scopes := h.scopes
  outermost := h.outermost
  inside := by
    have inside := h.inside
    simp only [Reading.addNamespace, List.length_append]
    omega
  namespaces := h.namespaces.concat h.inside same

theorem current (h : Mirrors slot copies r r') :
    r.current.1.Alike r'.current.1 ∧ Mirrors slot copies r.current.2 r'.current.2 := by
  have opened := h.addNamespace (.refl (Body.implicitClass r.path))
  obtain ⟨path, namespaces, scopes, outermost, globals, diagnostics, comments⟩ := r
  obtain ⟨path', namespaces', scopes', outermost', globals', diagnostics', comments'⟩ := r'
  obtain ⟨rfl, rfl, hs, ho, inside, copied⟩ := h
  have length : namespaces'.length = namespaces.length := copied.length
  cases hs with
  | cons same outer => exact ⟨same, rfl, rfl, .cons same outer, ho, inside, copied⟩
  | nil =>
    cases ho with
    | some same => exact ⟨same, rfl, rfl, .nil, .some same, inside, copied⟩
    | none =>
      refine ⟨?_, rfl, rfl, .nil, .some ?_, opened.inside, opened.namespaces⟩
      · simp [Reading.current, Scope.Alike, length]
      · simp [Scope.Alike, length]

theorem edit (h : Mirrors slot copies r r') {s t : Scope} (scope : s.Alike t)
    {change change' : Namespace → Namespace}
    (changes : ∀ copies n other, n.Copied copies other → (change n).Copied copies (change' other)) :
    Mirrors slot copies (r.edit s change) (r'.edit t change') := by
  have slots : t.slot = s.slot := congrArg (·.slot) scope
  have namespaces := h.namespaces.modify s.slot changes
  exact ⟨h.path, h.comments, h.scopes, h.outermost, by simpa [Reading.edit] using h.inside,
    by simpa [Reading.edit, slots] using namespaces⟩

theorem setCurrent (h : Mirrors slot copies r r') {s t : Scope} (scope : s.Alike t) :
    Mirrors slot copies (r.setCurrent s) (r'.setCurrent t) := by
  obtain ⟨path, namespaces, scopes, outermost, globals, diagnostics, comments⟩ := r
  obtain ⟨path', namespaces', scopes', outermost', globals', diagnostics', comments'⟩ := r'
  obtain ⟨rfl, rfl, hs, ho, inside, copied⟩ := h
  cases hs with
  | cons _ outer => exact ⟨rfl, rfl, .cons scope outer, ho, inside, copied⟩
  | nil => exact ⟨rfl, rfl, .nil, .some scope, inside, copied⟩

theorem openSingleton (h : Mirrors slot copies r r') (line line' : Nat) :
    Mirrors slot copies (r.openSingleton line) (r'.openSingleton line') := by
  obtain ⟨scope, here⟩ := h.current
  unfold Reading.openSingleton
  generalize r.current = entered at scope here ⊢
  generalize r'.current = entered' at scope here ⊢
  have body : Scope.Alike
      { slot := entered.1.slot, owner := entered.1.owner, receiver := .singleton, line := line }
      { slot := entered'.1.slot, owner := entered'.1.owner, receiver := .singleton,
        line := line' } :=
    (congrArg (fun s : Scope => (⟨s.slot, s.owner, .singleton, .pub, false, 0⟩ : Scope)) scope :)
  exact ⟨here.path, here.comments, .cons body here.scopes, here.outermost, here.inside,
    here.namespaces⟩

theorem owner_eq {scopes scopes' : List Scope} (h : List.Forall₂ Scope.Alike scopes scopes') :
    scopes'.head?.map (·.owner) = scopes.head?.map (·.owner) := by
  cases h with
  | nil => rfl
  | cons same _ => exact congrArg some (congrArg (·.owner) same)

theorem openNamespace (h : Mirrors slot copies r r') (header : Header) (line line' : Nat)
    (documentation : Option String) :
    Mirrors slot copies (r.openNamespace header line documentation)
      (r'.openNamespace header line' documentation) := by
  rw [openNamespace_eq, openNamespace_eq, owner_eq h.scopes]
  let own := header.namespace (r.scopes.head?.map (·.owner)) r.path line documentation
  let own' := header.namespace (r.scopes.head?.map (·.owner)) r'.path line' documentation
  have opened : own.Copied [] own' := by
    refine ⟨?_, .nil _⟩
    simp only [own', h.path]
    rfl
  have body : Scope.Alike
      { slot := r.namespaces.length, owner := own.qualifiedName, line := line }
      { slot := r'.namespaces.length, owner := own'.qualifiedName, line := line' } := by
    simp only [own, own', h.path, h.namespaces.length]
    rfl
  have listed := h.addNamespace opened
  exact ⟨h.path, h.comments, .cons body h.scopes, h.outermost, listed.inside, listed.namespaces⟩

theorem close (h : Mirrors slot copies r r') (line line' : Nat) (read : r.close line = .ok q) :
    ∃ q', r'.close line' = .ok q' ∧ Mirrors slot copies q q' := by
  obtain ⟨path, namespaces, scopes, outermost, globals, diagnostics, comments⟩ := r
  obtain ⟨path', namespaces', scopes', outermost', globals', diagnostics', comments'⟩ := r'
  obtain ⟨rfl, rfl, hs, ho, inside, copied⟩ := h
  cases hs with
  | cons _ outer =>
    cases read
    exact ⟨_, rfl, rfl, rfl, outer, ho, inside, copied⟩
  | nil => cases read

theorem define (h : Mirrors slot copies r r') {visibility : Option Visibility} {source : String}
    {line : Nat} (line' : Nat) {documentation : Option String}
    (read : r.define visibility source line documentation = .ok q) :
    ∃ q', r'.define visibility source line' documentation = .ok q' ∧ Mirrors slot copies q q' := by
  obtain ⟨scope, here⟩ := h.current
  unfold Reading.define at read ⊢
  cases defined : Statement.definition? source.toList with
  | none => simp only [defined, reduceCtorEq] at read
  | some d =>
    simp only [defined] at read ⊢
    cases listed : Parameter.parseList d.parameters with
    | error e => simp only [listed, reduceCtorEq] at read
    | ok parameters =>
      simp only [listed, Except.ok.injEq] at read ⊢
      subst read
      refine ⟨_, rfl, here.edit scope fun copies n other copied => copied.define scope ?_⟩
      have receivers : r'.current.1.receiver = r.current.1.receiver := congrArg (·.receiver) scope
      have visibilities : r'.current.1.visibility = r.current.1.visibility :=
        congrArg (·.visibility) scope
      simp only [receivers, visibilities]
      rfl

/-- A statement that is read in one text is read in the other one. -/
theorem apply (h : Mirrors slot copies r r') {statement : Statement} {line : Nat} (line' : Nat)
    {documentation : Option String} (read : r.apply statement line documentation = .ok q) :
    ∃ q', r'.apply statement line' documentation = .ok q' ∧ Mirrors slot copies q q' := by
  obtain ⟨scope, here⟩ := h.current
  cases statement with
  | close => exact h.close line line' read
  | openSingleton =>
    cases read
    exact ⟨_, rfl, h.openSingleton line line'⟩
  | openNamespace header =>
    have opened := h.openNamespace header line line' documentation
    simp only [Reading.apply] at read ⊢
    by_cases closed : header.closed = true
    · rw [if_pos closed] at read ⊢
      exact opened.close line line' read
    · rw [if_neg closed] at read ⊢
      cases read
      exact ⟨_, rfl, opened⟩
  | define visibility source => exact h.define line' read
  | setDefault visibility =>
    cases read
    refine ⟨_, rfl, here.setCurrent ?_⟩
    exact (congrArg (fun s : Scope => { s with visibility := visibility, moduleFunctions := false })
      scope :)
  | beginModuleFunctions =>
    cases read
    refine ⟨_, rfl, here.setCurrent ?_⟩
    exact (congrArg (fun s : Scope => { s with moduleFunctions := true }) scope :)
  | setVisibility visibility names =>
    cases read
    exact ⟨_, rfl, here.edit scope fun _ _ _ copied => copied.publish scope visibility names⟩
  | makeModuleFunctions names =>
    cases read
    exact ⟨_, rfl, here.edit scope fun _ _ _ copied => copied.makeModuleFunctions names⟩
  | «alias» newName oldName =>
    cases read
    refine ⟨_, rfl, here.edit scope fun _ _ _ copied => copied.rename ?_⟩
    exact (congrArg (fun s : Scope => (⟨newName, oldName, s.receiver, 0⟩ : Alias)) scope :)
  | mixin kind names =>
    cases read
    exact ⟨_, rfl, here.edit scope fun _ _ _ copied => copied.mix scope kind names⟩
  | aliasGlobal newName oldName | assignGlobal name value | unrecognized source =>
    cases read
    exact ⟨_, rfl, h.path, h.comments, h.scopes, h.outermost, h.inside, h.namespaces⟩
  | assignConstant name value =>
    cases read
    exact ⟨_, rfl, here.edit scope fun _ _ _ copied => copied.constant rfl⟩

theorem step (h : Mirrors slot copies r r') {raw : List Char} {number number' : Nat}
    (same : Line.read number' raw = Line.read number raw) (read : r.step (raw, number) = .ok q) :
    ∃ q', r'.step (raw, number') = .ok q' ∧ Mirrors slot copies q q' := by
  unfold Reading.step at read ⊢
  simp only [same] at read ⊢
  cases line : Line.read number raw with
  | blank =>
    simp only [line, Except.ok.injEq] at read ⊢
    subst read
    exact ⟨_, rfl, h.path, rfl, h.scopes, h.outermost, h.inside, h.namespaces⟩
  | magic =>
    simp only [line, Except.ok.injEq] at read ⊢
    subst read
    exact ⟨_, rfl, h⟩
  | comment text =>
    simp only [line, Except.ok.injEq] at read ⊢
    subst read
    exact ⟨_, rfl, h.path, congrArg (· ++ [text]) h.comments, h.scopes, h.outermost, h.inside,
      h.namespaces⟩
  | code source =>
    simp only [line] at read ⊢
    have dropped : Mirrors slot copies { r with comments := [] } { r' with comments := [] } :=
      ⟨h.path, rfl, h.scopes, h.outermost, h.inside, h.namespaces⟩
    rw [h.comments]
    exact dropped.apply number' read

/-- The lines of a text are read alike when they stand one line further down. -/
theorem lines (h : Mirrors slot copies r r') {lines : List (List Char)} {number : Nat}
    (same : ∀ numbered ∈ lines.zipIdx number,
      Line.read (numbered.2 + 1) numbered.1 = Line.read numbered.2 numbered.1)
    (read : (lines.zipIdx number).foldlM Reading.step r = .ok q) :
    ∃ q', (lines.zipIdx (number + 1)).foldlM Reading.step r' = .ok q' ∧
      Mirrors slot copies q q' := by
  induction lines generalizing r r' number with
  | nil =>
    cases read
    exact ⟨r', rfl, h⟩
  | cons raw lines ih =>
    rw [List.zipIdx_cons, List.foldlM_cons] at read
    rw [List.zipIdx_cons, List.forall_mem_cons] at same
    obtain ⟨p, first, read⟩ := bind_eq_ok_iff.mp read
    obtain ⟨p', first', mirrors⟩ := h.step same.1 first
    obtain ⟨q', rest, last⟩ := ih mirrors same.2 read
    refine ⟨q', ?_, last⟩
    rw [List.zipIdx_cons, List.foldlM_cons]
    exact bind_eq_ok_iff.mpr ⟨p', first', rest⟩

theorem finish (h : Mirrors slot copies r r') {f : StubFile} (read : r.finish = .ok f) :
    ∃ g, r'.finish = .ok g ∧ CopiedIn slot copies f.namespaces g.namespaces := by
  have recorded := h.namespaces.map fun _ _ _ copied => copied.applyAliases
  obtain ⟨path, namespaces, scopes, outermost, globals, diagnostics, comments⟩ := r
  obtain ⟨path', namespaces', scopes', outermost', globals', diagnostics', comments'⟩ := r'
  obtain ⟨rfl, rfl, hs, -⟩ := h
  cases hs with
  | nil =>
    cases read
    exact ⟨_, rfl, recorded⟩
  | cons _ _ => cases read

end Mirrors

end Reading

end RubyIndex
