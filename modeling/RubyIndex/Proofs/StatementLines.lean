import RubyIndex.Proofs.ReadNamespaces

/-! The lines of a stub file. What is read of a file keeps the number of the line on which it is
declared, and only the implicit class has none. What makes reading fail has a line too. -/
namespace RubyIndex

def IsLine (count line : Nat) : Prop := 1 ≤ line ∧ line ≤ count

variable {count line : Nat}

structure Namespace.Placed (count : Nat) (n : Namespace) : Prop where
  opened : n.implicit = false → IsLine count n.line
  methods : ∀ m ∈ n.methods, IsLine count m.line
  constants : ∀ c ∈ n.constants, IsLine count c.line
  aliases : ∀ a ∈ n.aliases, IsLine count a.line

theorem Namespace.Placed.amend {n n' : Namespace} (h : n.Placed count) (here : IsLine count line)
    (amended : n.Amended line n') : n'.Placed count := by
  have bare := amended.bare_eq
  have implicit : n'.implicit = n.implicit := congrArg (·.implicit) bare
  have place : n'.line = n.line := congrArg (·.line) bare
  refine ⟨?_, ?_, ?_, ?_⟩
  · rw [implicit, place]
    exact h.opened
  · refine amended.forall_methods (fun _ _ _ placed => placed) ?_ h.methods
    rintro m - rfl
    exact here
  · cases amended with
    | constant c at_line =>
      exact List.forall_mem_append.mpr
        ⟨h.constants, List.forall_mem_singleton.mpr (at_line ▸ here)⟩
    | mixin s kind names =>
      unfold Scope.mix
      split <;> exact h.constants
    | _ => exact h.constants
  · cases amended with
    | rename a at_line =>
      exact List.forall_mem_append.mpr ⟨h.aliases, List.forall_mem_singleton.mpr (at_line ▸ here)⟩
    | mixin s kind names =>
      unfold Scope.mix
      split <;> exact h.aliases
    | _ => exact h.aliases

/-- Recording the aliases of a namespace moves none of its methods. -/
theorem Namespace.Placed.recorded {n : Namespace} (h : n.Placed count) :
    ({ n with methods := applyAliases n.methods n.aliases } : Namespace).Placed count := by
  refine ⟨h.opened, ?_, h.constants, h.aliases⟩
  intro m hm
  have declared := List.mem_map_of_mem (f := Method.declared) hm
  rw [map_declared_applyAliases] at declared
  obtain ⟨m', hm', same⟩ := List.mem_map.mp declared
  have place : m'.line = m.line := congrArg (·.line) same
  exact place ▸ h.methods m' hm'

namespace Reading

/-- The invariant of the line loop. The scope outside all bodies has no line, and is never among
those that an `end` has to close. -/
structure Placed (count : Nat) (r : Reading) : Prop where
  namespaces : ∀ n ∈ r.namespaces, n.Placed count
  scopes : ∀ s ∈ r.scopes, IsLine count s.line
  diagnostics : ∀ d ∈ r.diagnostics, IsLine count d.line

variable {r r' : Reading} {l : Located} {e : ParseError}

theorem placed_empty (path : String) : Placed count { path := path } := by
  constructor <;> simp

theorem placed_current (h : r.Placed count) : r.current.2.Placed count := by
  unfold current
  split
  · exact h
  · exact h
  · refine ⟨List.forall_mem_append.mpr ⟨h.namespaces, ?_⟩, h.scopes, h.diagnostics⟩
    exact List.forall_mem_singleton.mpr ⟨by simp, by simp, by simp, by simp⟩

theorem line_current (h : r.Placed count) (inside : r.scopes ≠ []) :
    IsLine count r.current.1.line := by
  obtain ⟨s, outer, eq⟩ := List.exists_cons_of_ne_nil inside
  have first : r.current.1 = s := by rw [current, eq]
  rw [first]
  exact h.scopes s (by simp [eq])

theorem placed_effect (h : r.Placed count) (here : IsLine count line)
    (effect : Effect line r r') : r'.Placed count := by
  have current := placed_current h
  cases effect with
  | amend change amends =>
    exact ⟨forall_mem_edit current.namespaces _ fun n placed => placed.amend here (amends n),
      current.scopes, current.diagnostics⟩
  | scope s owner place =>
    unfold setCurrent
    split
    · next first outer eq =>
      have scopes := current.scopes
      rw [eq, List.forall_mem_cons] at scopes
      have inside : r.scopes ≠ [] := by
        rw [← scopes_current r, eq]
        exact List.cons_ne_nil first outer
      have line : IsLine count s.line := place ▸ line_current h inside
      exact ⟨current.namespaces, List.forall_mem_cons.mpr ⟨line, scopes.2⟩, current.diagnostics⟩
    · exact ⟨current.namespaces, current.scopes, current.diagnostics⟩
  | global g => exact ⟨h.namespaces, h.scopes, h.diagnostics⟩
  | unrecognized source =>
    exact ⟨h.namespaces, h.scopes,
      List.forall_mem_append.mpr ⟨h.diagnostics, List.forall_mem_singleton.mpr here⟩⟩

theorem placed_pop (h : r.Placed count) (popped : r.pop? = some r') : r'.Placed count := by
  unfold pop? at popped
  split at popped
  · cases popped
  · next s outer eq =>
    cases popped
    exact ⟨h.namespaces, fun s hs => h.scopes s (by simp [eq, hs]), h.diagnostics⟩

theorem placed_openSingleton (h : r.Placed count) (here : IsLine count line) :
    (r.openSingleton line).Placed count := by
  have current := placed_current h
  exact ⟨current.namespaces, List.forall_mem_cons.mpr ⟨here, current.scopes⟩, current.diagnostics⟩

theorem placed_openNamespace (h : r.Placed count) (here : IsLine count line) (header : Header)
    (documentation : Option String) : (r.openNamespace header line documentation).Placed count := by
  rw [openNamespace_eq]
  refine ⟨List.forall_mem_append.mpr ⟨h.namespaces, List.forall_mem_singleton.mpr ?_⟩,
    List.forall_mem_cons.mpr ⟨here, h.scopes⟩, h.diagnostics⟩
  exact ⟨fun _ => here, List.forall_mem_nil _, List.forall_mem_nil _, List.forall_mem_nil _⟩

theorem placed_act (h : r.Placed count) (here : IsLine count l.line) (act : r.act? l = some r') :
    r'.Placed count := by
  cases hs : l.statement with
  | close =>
    rw [act?, hs, apply, toOption_close] at act
    exact placed_pop h act
  | openSingleton =>
    rw [act?, hs] at act
    cases act
    exact placed_openSingleton h here
  | openNamespace header =>
    have opened := placed_openNamespace h here header l.documentation
    rw [act?, hs, apply] at act
    split at act
    · rw [toOption_close] at act
      exact placed_pop opened act
    · cases act
      exact opened
  | _ => exact placed_effect h here (plain_effect (l := l) (by simpa [plain?, hs] using act))

theorem placed_run {ls : List Located} (h : r.Placed count) (lines : ∀ l ∈ ls, IsLine count l.line)
    (run : r.run? ls = some r') : r'.Placed count := by
  induction ls generalizing r with
  | nil =>
    cases run
    exact h
  | cons l ls ih =>
    obtain ⟨r₁, act, run⟩ := Option.bind_eq_some_iff.mp (show (r.act? l).bind _ = some r' from run)
    rw [List.forall_mem_cons] at lines
    exact ih (placed_act h lines.1 act) lines.2 run

theorem line_of_close_error (h : r.close line = .error e) : e.line = line := by
  unfold close at h
  split at h
  · cases h
    rfl
  · cases h

theorem line_of_define_error {visibility : Option Visibility} {source : String}
    {documentation : Option String} (h : r.define visibility source line documentation = .error e) :
    e.line = line := by
  unfold define at h
  split at h
  · cases h
    rfl
  · split at h
    · cases h
      rfl
    · cases h

theorem line_of_apply_error {statement : Statement} {documentation : Option String}
    (h : r.apply statement line documentation = .error e) : e.line = line := by
  cases statement with
  | close => exact line_of_close_error h
  | openNamespace header =>
    rw [apply] at h
    split at h
    · exact line_of_close_error h
    · cases h
  | define visibility source => exact line_of_define_error h
  | _ => cases h

/-- Reading fails on one of the lines. -/
theorem line_of_foldlM_error {lines : List (List Char × Nat)}
    (h : lines.foldlM step r = .error e) : ∃ raw, (raw, e.line) ∈ lines := by
  induction lines generalizing r with
  | nil => cases h
  | cons numbered lines ih =>
    rw [List.foldlM_cons] at h
    cases stepped : r.step numbered with
    | ok r' =>
      rw [stepped] at h
      obtain ⟨raw, listed⟩ := ih h
      exact ⟨raw, List.mem_cons_of_mem _ listed⟩
    | error fault =>
      rw [stepped] at h
      cases h
      unfold step at stepped
      split at stepped
      · cases stepped
      · cases stepped
      · cases stepped
      · rw [line_of_apply_error stepped]
        exact ⟨numbered.1, List.mem_cons_self⟩

end Reading

namespace StubFile

def lineCount (text : String) : Nat := (Text.lines text.toList).length

structure Placed (count : Nat) (f : StubFile) : Prop where
  namespaces : ∀ n ∈ f.namespaces, n.Placed count
  diagnostics : ∀ d ∈ f.diagnostics, IsLine count d.line

variable {text path : String}

theorem isLine_of_mem_numbered {raw : List Char}
    (h : (raw, line) ∈ (Text.lines text.toList).zipIdx 1) : IsLine (lineCount text) line := by
  have first := List.le_snd_of_mem_zipIdx h
  have last := List.snd_lt_add_of_mem_zipIdx h
  dsimp only at first last
  unfold lineCount
  constructor
  · exact first
  · omega

/-- The line loop over a text keeps its invariant. -/
theorem placed_of_loop {r : Reading}
    (loop : ((Text.lines text.toList).zipIdx 1).foldlM Reading.step { path := path } = .ok r) :
    r.Placed (lineCount text) := by
  have run := Reading.foldlM_step ((Text.lines text.toList).zipIdx 1) { path := path }
  rw [loop] at run
  have lines : ∀ l ∈ statementsOf text, IsLine (lineCount text) l.line := by
    intro l hl
    obtain ⟨raw, -, listed, -⟩ := origin_of_mem_located hl
    exact isLine_of_mem_numbered listed
  have placed := Reading.placed_run (Reading.placed_empty path) lines run.symm
  exact ⟨placed.namespaces, placed.scopes, placed.diagnostics⟩

theorem placed_of_parse {f : StubFile} (parsed : StubFile.parse text path = .ok f) :
    f.Placed (lineCount text) := by
  unfold StubFile.parse at parsed
  cases loop : ((Text.lines text.toList).zipIdx 1).foldlM Reading.step { path := path } with
  | error e =>
    rw [loop] at parsed
    cases parsed
  | ok r =>
    have placed := placed_of_loop loop
    rw [loop] at parsed
    change r.finish = _ at parsed
    unfold Reading.finish at parsed
    split at parsed
    · cases parsed
    · cases parsed
      refine ⟨?_, placed.diagnostics⟩
      intro n hn
      obtain ⟨m, hm, rfl⟩ := List.mem_map.mp hn
      exact (placed.namespaces m hm).recorded

/-- A text that cannot be read has a line where it goes wrong, be it the one that opens a body
which nothing closes. -/
theorem line_of_parse_error {e : ParseError} (failed : StubFile.parse text path = .error e) :
    IsLine (lineCount text) e.line := by
  unfold StubFile.parse at failed
  cases loop : ((Text.lines text.toList).zipIdx 1).foldlM Reading.step { path := path } with
  | error fault =>
    rw [loop] at failed
    cases failed
    obtain ⟨raw, listed⟩ := Reading.line_of_foldlM_error loop
    exact isLine_of_mem_numbered listed
  | ok r =>
    have placed := placed_of_loop loop
    rw [loop] at failed
    change r.finish = _ at failed
    unfold Reading.finish at failed
    split at failed
    · next s outer eq =>
      cases failed
      exact placed.scopes s (by simp [eq])
    · cases failed

end StubFile

end RubyIndex
