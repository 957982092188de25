import RubyIndex.Proofs.AliasRecording
import RubyIndex.Proofs.HeaderNames
import RubyIndex.Proofs.StatementStep

/-! What reading a file guarantees of the namespaces in it: a name that begins with a capital, and
methods that have no aliases but those that the alias statements of the namespace record. -/
namespace RubyIndex

section Methods

variable {P : Method → Prop} {methods : List Method}

def Method.Steady (P : Method → Prop) : Prop :=
  ∀ m visibility receiver, P m → P { m with visibility := visibility, receiver := receiver }

theorem Method.Steady.place (steady : Method.Steady P) (s : Scope) {m : Method} (hm : P m) :
    ∀ x ∈ s.place m, P x := by
  unfold Scope.place
  split
  · exact List.forall_mem_cons.mpr
      ⟨steady m .priv m.receiver hm, List.forall_mem_singleton.mpr (steady m .pub .singleton hm)⟩
  · exact List.forall_mem_singleton.mpr hm

theorem Method.Steady.publish (steady : Method.Steady P) (s : Scope) (visibility : Visibility)
    (names : List String) (h : ∀ m ∈ methods, P m) :
    ∀ m ∈ names.foldl (s.publish visibility) methods, P m := by
  induction names generalizing methods with
  | nil => exact h
  | cons name names ih =>
    apply ih
    exact forall_mem_updateFirst (fun m hm => steady m visibility m.receiver hm) name s.receiver h

theorem Method.Steady.makeModuleFunction (steady : Method.Steady P) (name : String)
    (h : ∀ m ∈ methods, P m) : ∀ m ∈ makeModuleFunction methods name, P m := by
  unfold RubyIndex.makeModuleFunction
  split
  · exact h
  · next m found =>
    have private_copy := forall_mem_updateFirst
      (fun m hm => steady m .priv m.receiver hm) name .inst h
    have copied := steady m .pub .singleton (h m (List.mem_of_find?_eq_some found))
    exact List.forall_mem_append.mpr ⟨private_copy, List.forall_mem_singleton.mpr copied⟩

theorem Method.Steady.makeModuleFunctions (steady : Method.Steady P) (names : List String)
    (h : ∀ m ∈ methods, P m) : ∀ m ∈ names.foldl RubyIndex.makeModuleFunction methods, P m := by
  induction names generalizing methods with
  | nil => exact h
  | cons name names ih => exact ih (steady.makeModuleFunction name h)

/-- A statement keeps such a property of the methods of a namespace if the methods that it adds
have it. -/
theorem Namespace.Amended.forall_methods {line : Nat} {n n' : Namespace}
    (amended : n.Amended line n')
    (steady : Method.Steady P) (fresh : ∀ m : Method, m.aliases = [] → m.line = line → P m)
    (h : ∀ m ∈ n.methods, P m) : ∀ m ∈ n'.methods, P m := by
  cases amended with
  | define s m unaliased here =>
    exact List.forall_mem_append.mpr ⟨h, steady.place s (fresh m unaliased here)⟩
  | publish s visibility names => exact steady.publish s visibility names h
  | moduleFunctions names => exact steady.makeModuleFunctions names h
  | rename a here => exact h
  | mixin s kind names =>
    unfold Scope.mix
    split <;> exact h
  | constant c here => exact h

end Methods

/-- Methods before the alias statements of their namespace are applied. -/
def Unaliased (methods : List Method) : Prop := ∀ m ∈ methods, m.aliases = []

structure Namespace.Sound (n : Namespace) : Prop where
  named : Capitalized n.qualifiedName
  unaliased : Unaliased n.methods

theorem Namespace.Sound.amend {line : Nat} {n n' : Namespace} (h : n.Sound)
    (amended : n.Amended line n') : n'.Sound := by
  have name : n'.bare.qualifiedName = n.bare.qualifiedName := congrArg _ amended.bare_eq
  refine ⟨?_, ?_⟩
  · exact (show n'.qualifiedName = n.qualifiedName from name) ▸ h.named
  · exact amended.forall_methods (fun _ _ _ none => none) (fun _ none _ => none) h.unaliased

namespace Reading

/-- The invariant of the line loop: sound namespaces, and open bodies with names that begin with a
capital. -/
structure Sound (r : Reading) : Prop where
  namespaces : ∀ n ∈ r.namespaces, n.Sound
  scopes : ∀ s ∈ r.scopes, Capitalized s.owner
  outermost : ∀ s ∈ r.outermost, Capitalized s.owner

variable {r r' : Reading} {l : Located}

theorem sound_empty (path : String) : Sound { path := path } := by
  constructor <;> simp

theorem sound_current (h : r.Sound) : r.current.2.Sound ∧ Capitalized r.current.1.owner := by
  have object : Capitalized implicitOwner := ⟨'O', _, rfl, rfl⟩
  unfold current
  split
  · next s outer eq => exact ⟨h, h.scopes s (by simp [eq])⟩
  · next s _ eq => exact ⟨h, h.outermost s (by simp [eq])⟩
  · refine ⟨⟨?_, h.scopes, by simpa using object⟩, object⟩
    refine List.forall_mem_append.mpr ⟨h.namespaces, ?_⟩
    simpa using ⟨object, by simp [Unaliased]⟩

theorem sound_edit (h : r.Sound) (s : Scope) {line : Nat} {change : Namespace → Namespace}
    (amends : ∀ n : Namespace, n.Amended line (change n)) : (r.edit s change).Sound :=
  ⟨forall_mem_edit h.namespaces s fun n sound => sound.amend (amends n), h.scopes, h.outermost⟩

theorem sound_setCurrent (h : r.Sound) {s : Scope} (owner : Capitalized s.owner) :
    (r.setCurrent s).Sound := by
  unfold setCurrent
  split
  · next _ outer eq =>
    exact ⟨h.namespaces, by simpa [owner] using fun s hs => h.scopes s (by simp [eq, hs]),
      h.outermost⟩
  · exact ⟨h.namespaces, h.scopes, by simpa using owner⟩

theorem sound_effect (h : r.Sound) {line : Nat} (effect : Effect line r r') : r'.Sound := by
  obtain ⟨current, owner⟩ := sound_current h
  cases effect with
  | amend change amends => exact sound_edit current _ amends
  | scope s same place => exact sound_setCurrent current (same ▸ owner)
  | global g => exact ⟨h.namespaces, h.scopes, h.outermost⟩
  | unrecognized source => exact ⟨h.namespaces, h.scopes, h.outermost⟩

theorem sound_pop (h : r.Sound) (popped : r.pop? = some r') : r'.Sound := by
  unfold pop? at popped
  split at popped
  · cases popped
  · next s outer eq =>
    cases popped
    exact ⟨h.namespaces, fun s hs => h.scopes s (by simp [eq, hs]), h.outermost⟩

theorem sound_openSingleton (h : r.Sound) (line : Nat) : (r.openSingleton line).Sound := by
  obtain ⟨current, owner⟩ := sound_current h
  exact ⟨current.namespaces, List.forall_mem_cons.mpr ⟨owner, current.scopes⟩, current.outermost⟩

theorem sound_openNamespace (h : r.Sound) {header : Header}
    (path : Capitalized (dropRoot header.path)) (line : Nat) (documentation : Option String) :
    (r.openNamespace header line documentation).Sound := by
  have outer : ∀ name ∈ r.scopes.head?.map (·.owner), Capitalized name := by
    intro name hm
    obtain ⟨s, hs, rfl⟩ := Option.map_eq_some_iff.mp hm
    exact h.scopes s (List.mem_of_mem_head? hs)
  have named := Header.namespace_capitalized path outer r.path line documentation
  have unaliased : Unaliased (header.namespace (r.scopes.head?.map (·.owner)) r.path line
      documentation).methods := List.forall_mem_nil _
  rw [openNamespace_eq]
  refine ⟨List.forall_mem_append.mpr ⟨h.namespaces, ?_⟩,
    List.forall_mem_cons.mpr ⟨named, h.scopes⟩, h.outermost⟩
  exact List.forall_mem_singleton.mpr ⟨named, unaliased⟩

theorem sound_act (h : r.Sound) (read : ∃ source, l.statement = Statement.read source)
    (act : r.act? l = some r') : r'.Sound := by
  cases hs : l.statement with
  | close =>
    rw [act?, hs, apply, toOption_close] at act
    exact sound_pop h act
  | openSingleton =>
    rw [act?, hs] at act
    cases act
    exact sound_openSingleton h l.line
  | openNamespace header =>
    obtain ⟨source, same⟩ := read
    have path := Statement.read_capitalized (same.symm.trans hs)
    have opened := sound_openNamespace h path l.line l.documentation
    rw [act?, hs, apply] at act
    split at act
    · rw [toOption_close] at act
      exact sound_pop opened act
    · cases act
      exact opened
  | _ => exact sound_effect h (plain_effect (l := l) (by simpa [plain?, hs] using act))

theorem sound_run {ls : List Located} (h : r.Sound)
    (read : ∀ l ∈ ls, ∃ source, l.statement = Statement.read source)
    (run : r.run? ls = some r') : r'.Sound := by
  induction ls generalizing r with
  | nil =>
    cases run
    exact h
  | cons l ls ih =>
    obtain ⟨r₁, act, run⟩ := Option.bind_eq_some_iff.mp (show (r.act? l).bind _ = some r' from run)
    rw [List.forall_mem_cons] at read
    exact ih (sound_act h read.1 act) read.2 run

end Reading

def StubFile.Parsed (f : StubFile) : Prop := ∃ text path, StubFile.parse text path = .ok f

structure Namespace.Read (n : Namespace) : Prop where
  named : Capitalized n.qualifiedName
  recorded : ∃ methods, Unaliased methods ∧ n.methods = applyAliases methods n.aliases

/-- Reading a file gives each namespace in it a name that begins with a capital, and its methods no
aliases but those that its statements record. -/
theorem StubFile.Parsed.read {f : StubFile} (h : f.Parsed) : ∀ n ∈ f.namespaces, n.Read := by
  obtain ⟨text, path, parsed⟩ := h
  rw [← toOption_eq_some_iff, parse_eq_run] at parsed
  obtain ⟨r, run, finish⟩ := Option.bind_eq_some_iff.mp parsed
  have sound := Reading.sound_run (Reading.sound_empty path)
    (fun l hl => statement_of_mem_located hl) run
  unfold Reading.finish? Reading.finish at finish
  split at finish
  · cases finish
  · cases finish
    intro n hn
    obtain ⟨m, hm, rfl⟩ := List.mem_map.mp hn
    exact ⟨(sound.namespaces m hm).named, m.methods, (sound.namespaces m hm).unaliased, rfl⟩

end RubyIndex
