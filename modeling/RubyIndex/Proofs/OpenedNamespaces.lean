import RubyIndex.Proofs.HeaderNames
import RubyIndex.Proofs.StatementStep

/-! What the first line of a namespace decides. No statement after it changes anything of the
namespace but its members, so a property of the rest holds of every namespace of a file if it holds
of those that header lines open and of the implicit class. -/
namespace RubyIndex

namespace Reading

structure Opened (P : Namespace → Prop) (path : String) (r : Reading) : Prop where
  path : r.path = path
  namespaces : ∀ n ∈ r.namespaces, P n.bare

variable {P : Namespace → Prop} {path : String} {r r' : Reading} {l : Located}

theorem opened_current (h : r.Opened P path) (implicit : P (Body.implicitClass path)) :
    r.current.2.Opened P path := by
  unfold current
  split
  · exact h
  · exact h
  · refine ⟨h.path, ?_⟩
    intro n hn
    rcases List.mem_append.mp hn with hn | hn
    · exact h.namespaces n hn
    · obtain rfl := List.mem_singleton.mp hn
      rw [h.path]
      exact implicit

theorem opened_edit (h : r.Opened P path) (s : Scope) {change : Namespace → Namespace}
    (keeps : ∀ n, (change n).bare = n.bare) : (r.edit s change).Opened P path :=
  ⟨h.path, forall_mem_edit h.namespaces s fun n hp => by rwa [keeps]⟩

theorem opened_setCurrent (h : r.Opened P path) (s : Scope) : (r.setCurrent s).Opened P path := by
  unfold setCurrent
  split <;> exact ⟨h.path, h.namespaces⟩

theorem opened_plain (h : r.Opened P path) (implicit : P (Body.implicitClass path))
    (plain : Plain r r') : r'.Opened P path := by
  have current := opened_current h implicit
  cases plain with
  | edit change keeps => exact opened_edit current _ keeps
  | scope s => exact opened_setCurrent current s
  | note globals diagnostics => exact ⟨h.path, h.namespaces⟩

theorem opened_pop (h : r.Opened P path) (popped : r.pop? = some r') : r'.Opened P path := by
  unfold pop? at popped
  split at popped
  · cases popped
  · cases popped
    exact ⟨h.path, h.namespaces⟩

theorem opened_openNamespace (h : r.Opened P path) {header : Header} {line : Nat}
    {documentation : Option String}
    (first : ∀ within, P (header.namespace within path line documentation)) :
    (r.openNamespace header line documentation).Opened P path := by
  rw [openNamespace_eq]
  refine ⟨h.path, ?_⟩
  intro n hn
  rcases List.mem_append.mp hn with hn | hn
  · exact h.namespaces n hn
  · obtain rfl := List.mem_singleton.mp hn
    rw [h.path]
    exact first _

theorem opened_act (h : r.Opened P path) (implicit : P (Body.implicitClass path))
    (first : ∀ header, l.statement = .openNamespace header →
      ∀ within, P (header.namespace within path l.line l.documentation))
    (act : r.act? l = some r') : r'.Opened P path := by
  cases hs : l.statement with
  | close =>
    rw [act?, hs, apply, toOption_close] at act
    exact opened_pop h act
  | openSingleton =>
    rw [act?, hs] at act
    cases act
    have current := opened_current h implicit
    exact ⟨current.path, current.namespaces⟩
  | openNamespace header =>
    have opened := opened_openNamespace h (first header hs)
    rw [act?, hs, apply] at act
    split at act
    · rw [toOption_close] at act
      exact opened_pop opened act
    · cases act
      exact opened
  | _ => exact opened_plain h implicit (plain_cases (l := l) (by simpa [plain?, hs] using act))

theorem opened_run {ls : List Located} (h : r.Opened P path)
    (implicit : P (Body.implicitClass path))
    (first : ∀ l ∈ ls, ∀ header, l.statement = .openNamespace header →
      ∀ within, P (header.namespace within path l.line l.documentation))
    (run : r.run? ls = some r') : r'.Opened P path := by
  induction ls generalizing r with
  | nil =>
    cases run
    exact h
  | cons l ls ih =>
    obtain ⟨r₁, act, run⟩ := Option.bind_eq_some_iff.mp (show (r.act? l).bind _ = some r' from run)
    rw [List.forall_mem_cons] at first
    exact ih (opened_act h implicit first.1 act) first.2 run

end Reading

namespace StubFile

/-- A property that the implicit class has and that every header line gives its namespace holds of
all namespaces of a file. -/
theorem forall_bare_of_parse {P : Namespace → Prop} {text path : String} {f : StubFile}
    (parsed : StubFile.parse text path = .ok f) (implicit : P (Body.implicitClass path))
    (first : ∀ source header, Statement.read source = .openNamespace header →
      ∀ within line documentation, P (header.namespace within path line documentation)) :
    f.path = path ∧ ∀ n ∈ f.namespaces, P n.bare := by
  rw [← toOption_eq_some_iff, parse_eq_run] at parsed
  obtain ⟨r, run, finish⟩ := Option.bind_eq_some_iff.mp parsed
  have start : Reading.Opened P path { path := path } := ⟨rfl, by simp⟩
  have opened := Reading.opened_run start implicit
    (by
      intro l hl header hs within
      obtain ⟨source, read⟩ := statement_of_mem_located hl
      exact first source header (read.symm.trans hs) within l.line l.documentation)
    run
  unfold Reading.finish? Reading.finish at finish
  split at finish
  · cases finish
  · cases finish
    refine ⟨opened.path, ?_⟩
    intro n hn
    obtain ⟨m, hm, rfl⟩ := List.mem_map.mp hn
    exact opened.namespaces m hm

theorem path_of_parse {text path : String} {f : StubFile}
    (parsed : StubFile.parse text path = .ok f) :
    f.path = path ∧ ∀ n ∈ f.namespaces, n.path = path :=
  forall_bare_of_parse (P := (·.path = path)) parsed rfl fun _ _ _ _ _ _ => rfl

end StubFile

end RubyIndex
