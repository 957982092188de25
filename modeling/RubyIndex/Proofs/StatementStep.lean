import RubyIndex.Proofs.HeaderNames

/-! The statements of a stub file, one after the other. Each statement opens or closes a body, or it
edits one namespace, changes one scope or adds to the file. -/
namespace RubyIndex

theorem toOption_bind {ε α β : Type} (x : Except ε α) (f : α → Except ε β) :
    (x >>= f).toOption = x.toOption >>= fun a => (f a).toOption := by
  cases x <;> rfl

theorem toOption_eq_some_iff {ε α : Type} {x : Except ε α} {a : α} :
    x.toOption = some a ↔ x = .ok a := by
  cases x <;> simp [Except.toOption]

theorem toOption_foldlM {ε α β : Type} (f : β → α → Except ε β) (l : List α) (b : β) :
    (l.foldlM f b).toOption = l.foldlM (fun b a => (f b a).toOption) b := by
  induction l generalizing b with
  | nil => rfl
  | cons a l ih => simp only [List.foldlM_cons, toOption_bind, ih]

theorem bind_eq_ok_iff {ε α β : Type} {x : Except ε α} {f : α → Except ε β} {b : β} :
    x >>= f = .ok b ↔ ∃ a, x = .ok a ∧ f a = .ok b := by
  cases x with
  | error e => simp [bind, Except.bind]
  | ok a => simp [bind, Except.bind]

theorem alike_of_map_eq {ε α β : Type} {f : α → β} {x y : Except ε α} (h : x.map f = y.map f) :
    (∃ e, x = .error e ∧ y = .error e) ∨ ∃ a b, x = .ok a ∧ y = .ok b ∧ f a = f b := by
  cases x with
  | error e =>
    cases y with
    | error e' =>
      cases h
      exact .inl ⟨e, rfl, rfl⟩
    | ok b => cases h
  | ok a =>
    cases y with
    | error e => cases h
    | ok b => exact .inr ⟨a, b, rfl, rfl, Except.ok.inj h⟩

def Namespace.bare (n : Namespace) : Namespace :=
  { n with
    included := [], extended := [], prepended := [], constants := [], methods := [], aliases := [] }

theorem Scope.bare_mix (s : Scope) (kind : MixinKind) (names : List String) (n : Namespace) :
    (s.mix kind names n).bare = n.bare := by
  unfold mix
  split <;> rfl

/-- What a statement on a line may do to the namespace that it stands in. -/
inductive Namespace.Amended (line : Nat) (n : Namespace) : Namespace → Prop where
  | define (s : Scope) (m : Method) (fresh : m.aliases = []) (here : m.line = line) :
      Amended line n { n with methods := n.methods ++ s.place m }
  | publish (s : Scope) (visibility : Visibility) (names : List String) :
      Amended line n { n with methods := names.foldl (s.publish visibility) n.methods }
  | moduleFunctions (names : List String) :
      Amended line n { n with methods := names.foldl makeModuleFunction n.methods }
  | rename (a : Alias) (here : a.line = line) :
      Amended line n { n with aliases := n.aliases ++ [a] }
  | mixin (s : Scope) (kind : MixinKind) (names : List String) :
      Amended line n (s.mix kind names n)
  | constant (c : Constant) (here : c.line = line) :
      Amended line n { n with constants := n.constants ++ [c] }

theorem Namespace.Amended.bare_eq {line : Nat} {n n' : Namespace} (h : n.Amended line n') :
    n'.bare = n.bare := by
  cases h with
  | mixin s kind names => exact s.bare_mix kind names n
  | _ => rfl

namespace Reading

/-- What a statement does to the file, without the reason why it may not. -/
def act? (r : Reading) (l : Located) : Option Reading :=
  (r.apply l.statement l.line l.documentation).toOption

def run? (r : Reading) (ls : List Located) : Option Reading := ls.foldlM act? r

def pop? (r : Reading) : Option Reading :=
  match r.scopes with
  | [] => none
  | _ :: outer => some { r with scopes := outer }

def plain? (r : Reading) (l : Located) : Option Reading :=
  match l.statement with
  | .close | .openSingleton | .openNamespace _ => none
  | _ => r.act? l

theorem toOption_close (r : Reading) (line : Nat) : (r.close line).toOption = r.pop? := by
  unfold close pop?
  cases r.scopes <;> rfl

theorem openNamespace_eq (r : Reading) (h : Header) (line : Nat) (documentation : Option String) :
    r.openNamespace h line documentation =
      let own := h.namespace (r.scopes.head?.map (·.owner)) r.path line documentation
      { r with
        namespaces := r.namespaces ++ [own]
        scopes := { slot := r.namespaces.length, owner := own.qualifiedName, line := line } ::
          r.scopes } := by
  unfold openNamespace qualify Header.namespace
  rw [Header.qualifiedName_eq]
  cases absolute? h.path <;> cases r.scopes <;> rfl

inductive Plain (r : Reading) : Reading → Prop where
  | edit (change : Namespace → Namespace) (keeps : ∀ n, (change n).bare = n.bare) :
      Plain r (r.current.2.edit r.current.1 change)
  | scope (s : Scope) : Plain r (r.current.2.setCurrent s)
  | note (globals : List GlobalVariable) (diagnostics : List Diagnostic) :
      Plain r { r with globals := globals, diagnostics := diagnostics }

variable {r r' : Reading} {l : Located}

inductive Effect (line : Nat) (r : Reading) : Reading → Prop where
  | amend (change : Namespace → Namespace) (amends : ∀ n : Namespace, n.Amended line (change n)) :
      Effect line r (r.current.2.edit r.current.1 change)
  | scope (s : Scope) (owner : s.owner = r.current.1.owner) (place : s.line = r.current.1.line) :
      Effect line r (r.current.2.setCurrent s)
  | global (g : GlobalVariable) : Effect line r (r.addGlobal g)
  | unrecognized (source : String) :
      Effect line r { r with diagnostics := r.diagnostics ++ [⟨source, line⟩] }

/-- An edit keeps what holds of all namespaces if its change does. -/
theorem forall_mem_edit {P : Namespace → Prop} (h : ∀ n ∈ r.namespaces, P n) (s : Scope)
    {change : Namespace → Namespace} (keeps : ∀ n, P n → P (change n)) :
    ∀ n ∈ (r.edit s change).namespaces, P n := by
  intro n hn
  obtain ⟨i, hi⟩ := List.mem_iff_getElem?.mp hn
  have hi : (r.namespaces.modify s.slot change)[i]? = some n := hi
  rw [List.getElem?_modify] at hi
  obtain ⟨m, hm, rfl⟩ := Option.map_eq_some_iff.mp hi
  have hp := h m (List.mem_of_getElem? hm)
  by_cases same : s.slot = i
  · simpa [same] using keeps m hp
  · simpa [same] using hp

theorem define_effect {visibility : Option Visibility} {source : String} {line : Nat}
    {documentation : Option String} (h : r.define visibility source line documentation = .ok r') :
    Effect line r r' := by
  unfold define at h
  split at h
  · cases h
  · split at h
    · cases h
    · cases h
      exact .amend _ fun _ => .define _ _ rfl rfl

theorem plain_effect (h : r.plain? l = some r') : Effect l.line r r' := by
  unfold plain? act? at h
  cases hs : l.statement with
  | close | openSingleton | openNamespace header => simp [hs] at h
  | define visibility source =>
    simp only [hs, apply] at h
    exact define_effect (toOption_eq_some_iff.mp h)
  | setDefault visibility | beginModuleFunctions =>
    simp only [hs, apply, Except.toOption, Option.some.injEq] at h
    exact h ▸ .scope _ rfl rfl
  | setVisibility visibility names =>
    simp only [hs, apply, Except.toOption, Option.some.injEq] at h
    exact h ▸ .amend _ fun _ => .publish _ visibility names
  | makeModuleFunctions names =>
    simp only [hs, apply, Except.toOption, Option.some.injEq] at h
    exact h ▸ .amend _ fun _ => .moduleFunctions names
  | mixin kind names =>
    simp only [hs, apply, Except.toOption, Option.some.injEq] at h
    exact h ▸ .amend _ fun _ => .mixin _ kind names
  | assignConstant name value =>
    simp only [hs, apply, Except.toOption, Option.some.injEq] at h
    exact h ▸ .amend _ fun _ => .constant _ rfl
  | aliasGlobal newName oldName | assignGlobal name value =>
    simp only [hs, apply, Except.toOption, Option.some.injEq] at h
    exact h ▸ .global _
  | unrecognized source =>
    simp only [hs, apply, Except.toOption, Option.some.injEq] at h
    exact h ▸ .unrecognized source
  | _ =>
    simp only [hs, apply, Except.toOption, Option.some.injEq] at h
    exact h ▸ .amend _ fun _ => .rename _ rfl

theorem plain_cases (h : r.plain? l = some r') : Plain r r' := by
  cases plain_effect h with
  | amend change amends => exact .edit change fun n => (amends n).bare_eq
  | scope s owner place => exact .scope s
  | global g => exact .note (r.globals ++ [g]) r.diagnostics
  | unrecognized source => exact .note r.globals _

theorem scopes_current (r : Reading) : r.current.2.scopes = r.scopes := by
  unfold current
  split <;> simp_all [addNamespace]

theorem current_edit (r : Reading) (change : Namespace → Namespace) :
    (r.current.2.edit r.current.1 change).current =
      (r.current.1, r.current.2.edit r.current.1 change) := by
  obtain ⟨path, namespaces, _ | ⟨s, outer⟩, _ | s, globals, diagnostics, comments⟩ := r <;> rfl

theorem comments_current (r : Reading) : r.current.2.comments = r.comments := by
  unfold current
  split <;> rfl

theorem comments_plain (h : Plain r r') : r'.comments = r.comments := by
  cases h with
  | edit change keeps => exact r.comments_current
  | scope s =>
    unfold setCurrent
    split <;> exact r.comments_current
  | note globals diagnostics => rfl

theorem comments_pop (h : r.pop? = some r') : r'.comments = r.comments := by
  unfold pop? at h
  split at h
  · cases h
  · cases h
    rfl

theorem comments_act (h : r.act? l = some r') : r'.comments = r.comments := by
  cases hs : l.statement with
  | close =>
    rw [act?, hs, apply, toOption_close] at h
    exact comments_pop h
  | openSingleton =>
    rw [act?, hs] at h
    cases h
    exact r.comments_current
  | openNamespace header =>
    rw [act?, hs, apply] at h
    split at h
    · rw [toOption_close] at h
      exact (comments_pop h).trans rfl
    · cases h
      rfl
  | _ => exact comments_plain (plain_cases (l := l) (by simpa [plain?, hs] using h))

/-- The line loop runs the statements of the lines. The comments that wait for a declaration only
choose its documentation. -/
theorem foldlM_step (lines : List (List Char × Nat)) (r : Reading) :
    ((lines.foldlM step r).toOption).map (fun r => { r with comments := [] }) =
      run? { r with comments := [] } (located r.comments lines) := by
  rw [toOption_foldlM]
  induction lines generalizing r with
  | nil => rfl
  | cons numbered lines ih =>
    obtain ⟨raw, number⟩ := numbered
    simp only [List.foldlM_cons, step, located]
    cases Line.read number raw with
    | blank => exact ih { r with comments := [] }
    | magic => exact ih r
    | comment text => exact ih { r with comments := r.comments ++ [text] }
    | code source =>
      let l : Located := ⟨Statement.read source, number, Documentation.join r.comments⟩
      change ((({ r with comments := [] } : Reading).act? l).bind _).map _ =
        (({ r with comments := [] } : Reading).act? l).bind (run? · (located [] lines))
      cases act : ({ r with comments := [] } : Reading).act? l with
      | none => rfl
      | some r' =>
        have none : r'.comments = [] := comments_act act
        have rest := ih r'
        rw [none, show { r' with comments := [] } = r' by rw [← none]] at rest
        exact rest

def finish? (r : Reading) : Option StubFile := r.finish.toOption

end Reading

/-- A file is what its statements make of it, one after the other. -/
theorem StubFile.parse_eq_run (text path : String) :
    (StubFile.parse text path).toOption =
      (Reading.run? { path := path } (statementsOf text)).bind Reading.finish? := by
  have parsed : (StubFile.parse text path).toOption = _ := toOption_bind _ _
  have loop := Reading.foldlM_step ((Text.lines text.toList).zipIdx 1) { path := path }
  rw [parsed, show Reading.run? { path := path } (statementsOf text) = _ from loop.symm,
    Option.bind_map]
  rfl

end RubyIndex
