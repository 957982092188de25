import Mathlib.Algebra.Order.BigOperators.Group.List
import Mathlib.Algebra.Order.Group.Nat
import RubyIndex.Proofs.MirroredReadings
import RubyIndex.Proofs.RepeatedMembers

/-! A statement `module_function` with names that a text has twice. The statement copies the methods
that it names each time, whether the module has a copy of them or not. So the second one changes
nothing only if it names no method, and each copy but the first is found as a member that is
declared twice. -/
namespace RubyIndex

theorem Namespace.occurrences_method (n : Namespace) (receiver : Receiver) (name : String) :
    n.occurrences n.qualifiedName (.method receiver name) = n.keys.count (receiver, name) := by
  rw [occurrences, if_pos rfl, ← List.countP_eq_length_filter, members, List.countP_append,
    List.countP_map, List.countP_map, keys, List.count, List.countP_map]
  have constants : n.constants.countP ((fun entry : MemberName × Nat =>
      decide (entry.1 = .method receiver name)) ∘ fun c => (.constant c.name, c.line)) = 0 :=
    List.countP_eq_zero.mpr fun c _ => by simp
  rw [constants, Nat.add_zero]
  refine List.countP_congr fun m _ => ?_
  simp [Method.key]

/-- Copies are counted in addition, in their own place alone. -/
theorem Namespace.Copied.occurrences_method {copies : List Method} {n other : Namespace}
    (h : n.Copied copies other) (owner : String) (receiver : Receiver) (name : String) :
    other.occurrences owner (.method receiver name) =
      n.occurrences owner (.method receiver name) +
        if n.qualifiedName = owner then (copies.map (·.key)).count (receiver, name) else 0 := by
  have same : other.qualifiedName = n.qualifiedName := (congrArg (·.qualifiedName) h.rest :)
  by_cases named : n.qualifiedName = owner
  · subst named
    have keys := (h.methods.perm.map (·.key)).count_eq (receiver, name)
    rw [unnumberedMethods, unnumberedMethods, List.map_append, List.map_map, List.map_map,
      List.count_append] at keys
    rw [if_pos rfl, n.occurrences_method, ← same, other.occurrences_method]
    exact keys
  · rw [if_neg named, occurrences, occurrences, if_neg named, if_neg (by rwa [same])]

theorem sum_modify_add {l : List Nat} {i : Nat} (inside : i < l.length) (k : Nat) :
    (l.modify i (· + k)).sum = l.sum + k := by
  induction l generalizing i with
  | nil => exact absurd inside (Nat.not_lt_zero i)
  | cons a l ih =>
    cases i with
    | zero =>
      rw [List.modify_zero_cons, List.sum_cons, List.sum_cons]
      omega
    | succ i =>
      rw [List.modify_succ_cons, List.sum_cons, List.sum_cons, ih (Nat.lt_of_succ_lt_succ inside)]
      omega

theorem CopiedIn.sum_occurrences {slot : Nat} {copies : List Method}
    {namespaces others : List Namespace} (h : CopiedIn slot copies namespaces others)
    {d : Namespace} (found : namespaces[slot]? = some d) (receiver : Receiver) (name : String) :
    (others.map (Namespace.occurrences d.qualifiedName (.method receiver name))).sum =
      (namespaces.map (Namespace.occurrences d.qualifiedName (.method receiver name))).sum +
        (copies.map (·.key)).count (receiver, name) := by
  let before := Namespace.occurrences d.qualifiedName (.method receiver name)
  have added : others.map before = (namespaces.map before).modify slot
      (· + (copies.map (·.key)).count (receiver, name)) := by
    refine List.ext_getElem? fun i => ?_
    rw [List.getElem?_map, List.getElem?_modify, List.getElem?_map]
    cases own : namespaces[i]? with
    | none =>
      have beyond : others[i]? = none := by
        rw [List.getElem?_eq_none_iff, h.length]
        exact List.getElem?_eq_none_iff.mp own
      rw [beyond]
      rfl
    | some n =>
      have inside : i < others.length := h.length ▸ (List.getElem?_eq_some_iff.mp own).1
      have copied := h.copied i n others[i] own (List.getElem?_eq_getElem inside)
      rw [List.getElem?_eq_getElem inside, Option.map_some]
      refine congrArg some ((copied.occurrences_method d.qualifiedName receiver name).trans ?_)
      by_cases here : i = slot
      · subst here
        obtain rfl : d = n := Option.some.inj (found.symm.trans own)
        rw [if_pos rfl, if_pos rfl]
        exact (if_pos rfl).symm
      · rw [if_neg here, List.map_nil, List.count_nil, ite_self, Nat.add_zero]
        exact (if_neg (Ne.symm here)).symm
  have inside : slot < (namespaces.map before).length := by
    rw [List.length_map]
    exact (List.getElem?_eq_some_iff.mp found).1
  exact (congrArg List.sum added).trans (sum_modify_add inside _)

/-- Copies in one place leave no methods unchanged but where there are none. -/
theorem CopiedIn.methods_eq_iff {slot : Nat} {copies : List Method}
    {namespaces others : List Namespace} (h : CopiedIn slot copies namespaces others)
    (inside : slot < namespaces.length) :
    others.map (·.unnumberedMethods) = namespaces.map (·.unnumberedMethods) ↔ copies = [] := by
  have bound : slot < others.length := h.length.symm ▸ inside
  constructor
  · intro same
    have copied := h.copied slot _ _ (List.getElem?_eq_getElem inside)
      (List.getElem?_eq_getElem bound)
    have methods := congrArg (fun l => (l.map List.length)[slot]?) same
    have length := copied.methods.perm.length_eq
    simp only [List.getElem?_map, List.getElem?_eq_getElem inside, List.getElem?_eq_getElem bound,
      Option.map_some, Option.some.injEq] at methods
    rw [if_pos rfl, List.length_append, methods] at length
    exact List.length_eq_zero_iff.mp (by omega)
  · rintro rfl
    refine List.ext_getElem (by simp [h.length]) fun i inOthers inNamespaces => ?_
    rw [List.length_map] at inOthers inNamespaces
    have copied := h.copied i _ _ (List.getElem?_eq_getElem inNamespaces)
      (List.getElem?_eq_getElem inOthers)
    rw [ite_self] at copied
    rw [List.getElem_map, List.getElem_map]
    exact copied.methods.eq_of_nil

/-- Only on the first two lines it matters on which one a text stands. -/
theorem Line.read_succ {number : Nat} {raw : List Char}
    (h : 2 < number ∨ Line.read number raw ≠ .magic) :
    Line.read (number + 1) raw = Line.read number raw := by
  unfold Line.read at h ⊢
  cases trimmed : Text.trim raw with
  | nil => rfl
  | cons c rest =>
    by_cases marker : c = '#'
    · subst marker
      simp only [trimmed] at h ⊢
      have early : ¬ (number ≤ 2 && Documentation.isMagic ('#' :: rest)) = true := by
        intro magic
        rcases h with late | other
        · simp only [Bool.and_eq_true, decide_eq_true_eq] at magic
          omega
        · exact other (if_pos magic)
      have later : ¬ (number + 1 ≤ 2 && Documentation.isMagic ('#' :: rest)) = true := by
        intro magic
        simp only [Bool.and_eq_true, decide_eq_true_eq] at magic early
        exact early ⟨by omega, magic.2⟩
      rw [if_neg early, if_neg later]
    · simp [marker]

/-- Two texts that are the same but for one line, a statement with names of module functions, which
the other text has twice. A magic comment below the first line would be an ordinary one below the
second. -/
structure StatementAgain (text other : String) (before : List (List Char)) (line : List Char)
    (after : List (List Char)) (names : List String) : Prop where
  text : Text.lines text.toList = before ++ line :: after
  other : Text.lines other.toList = before ++ line :: line :: after
  statement : Statement.ofLine? line = some (.makeModuleFunctions names)
  magic : before = [] → ∀ raw ∈ after.head?, Line.read 2 raw ≠ .magic

namespace Reading

def body? (r : Reading) : Option Namespace := r.current.2.namespaces[r.current.1.slot]?

def makeFunctions (r : Reading) (names : List String) : Reading :=
  r.current.2.edit r.current.1 fun n =>
    { n with methods := names.foldl makeModuleFunction n.methods }

variable {r : Reading} {n : Namespace} {names : List String}

theorem current_dropped (r : Reading) : ({ r with comments := [] } : Reading).current =
    (r.current.1, { r.current.2 with comments := [] }) := by
  obtain ⟨path, namespaces, _ | ⟨s, outer⟩, _ | s, globals, diagnostics, comments⟩ := r <;> rfl

theorem body?_dropped (r : Reading) : ({ r with comments := [] } : Reading).body? = r.body? := by
  rw [body?, current_dropped]
  rfl

theorem step_of_statement {raw : List Char} {statement : Statement}
    (h : Statement.ofLine? raw = some statement) (r : Reading) (number : Nat) :
    r.step (raw, number) =
      { r with comments := [] }.apply statement number (Documentation.join r.comments) := by
  rw [Statement.ofLine?_eq number] at h
  unfold step
  cases line : Line.read number raw with
  | blank | magic | comment text => simp [line] at h
  | code source =>
    simp only [line, Option.some.injEq] at h
    rw [← h]

theorem body?_makeFunctions (body : r.body? = some n) (names : List String) :
    (r.makeFunctions names).namespaces[r.current.1.slot]? =
      some { n with methods := names.foldl makeModuleFunction n.methods } := by
  rw [makeFunctions, edit, List.getElem?_modify, show r.current.2.namespaces[_]? = _ from body]
  simp

/-- The statement once more adds its copies once more. -/
theorem mirrors_again (body : r.body? = some n) (unaliased : Unaliased n.methods)
    (names : List String) :
    Mirrors r.current.1.slot ((moduleCopies names n.methods).map Method.unnumbered)
      (r.makeFunctions names) ((r.makeFunctions names).makeFunctions names) := by
  let change (n : Namespace) : Namespace :=
    { n with methods := names.foldl makeModuleFunction n.methods }
  have own := body?_makeFunctions body names
  -- The body is open once the first statement is read, so that the second one only edits.
  have again : (r.makeFunctions names).makeFunctions names =
      (r.makeFunctions names).edit r.current.1 change := by
    have current := r.current_edit change
    change (r.makeFunctions names).current = _ at current
    rw [makeFunctions, current]
    rfl
  rw [again]
  refine ⟨rfl, rfl, List.forall₂_same.mpr fun _ _ => rfl, ?_,
    (List.getElem?_eq_some_iff.mp own).1, List.length_modify _ _ _,
    fun i m other found found' => ?_⟩
  · change Option.Rel _ (r.makeFunctions names).outermost (r.makeFunctions names).outermost
    cases (r.makeFunctions names).outermost with
    | none => exact .none
    | some s => exact .some rfl
  · change ((r.makeFunctions names).namespaces.modify r.current.1.slot change)[i]? = _ at found'
    rw [List.getElem?_modify] at found'
    obtain ⟨m', hm, rfl⟩ := Option.map_eq_some_iff.mp found'
    obtain rfl : m = m' := Option.some.inj (found.symm.trans hm)
    by_cases here : r.current.1.slot = i
    · subst here
      rw [own] at found
      cases found
      rw [if_pos rfl, if_pos rfl]
      exact ⟨rfl, (unaliased.withCopies_again names).unnumbered⟩
    · rw [if_neg here, if_neg (Ne.symm here)]
      exact .refl m

/-- The methods before the statement have no aliases, as alias statements are applied in the end. -/
theorem unaliased_body {path : String} {lines : List (List Char)}
    (read : (lines.zipIdx 1).foldlM step { path := path } = .ok r) (body : r.body? = some n) :
    Unaliased n.methods := by
  have run := foldlM_step (lines.zipIdx 1) { path := path }
  rw [read] at run
  have sound := sound_run (sound_empty path) (fun l hl => statement_of_mem_located hl) run.symm
  have current := (sound_current sound).1
  rw [current_dropped] at current
  exact (current.namespaces n (List.mem_of_getElem? body)).unaliased

end Reading

namespace StatementAgain

variable {text other path : String} {before after : List (List Char)} {line : List Char}
  {names : List String} {f : StubFile}

/-- The lines below are read alike one line further down. -/
theorem below (h : StatementAgain text other before line after names) :
    ∀ numbered ∈ after.zipIdx (before.length + 2),
      Line.read (numbered.2 + 1) numbered.1 = Line.read numbered.2 numbered.1 := by
  rintro ⟨raw, number⟩ hm
  obtain ⟨reached, listed⟩ := List.mk_mem_zipIdx_iff_le_and_getElem?_sub.mp hm
  refine Line.read_succ ?_
  by_cases late : 2 < number
  · exact Or.inl late
  · have first : before = [] := List.length_eq_zero_iff.mp (by omega)
    obtain rfl : number = 2 := by omega
    rw [first, List.length_nil, Nat.sub_self, ← List.head?_eq_getElem?] at listed
    exact Or.inr (h.magic first raw listed)

theorem exists_body (h : StatementAgain text other before line after names)
    (parsed : StubFile.parse text path = .ok f) :
    ∃ r n, (before.zipIdx 1).foldlM Reading.step { path := path } = .ok r ∧ r.body? = some n := by
  obtain ⟨q, read, -⟩ := bind_eq_ok_iff.mp parsed
  rw [h.text, List.zipIdx_append, List.foldlM_append] at read
  obtain ⟨r, first, -⟩ := bind_eq_ok_iff.mp read
  obtain ⟨n, found, -⟩ := Reading.fills_current first
  exact ⟨r, n, first, found⟩

section Body

variable {r : Reading} {n : Namespace}
  (first : (before.zipIdx 1).foldlM Reading.step { path := path } = .ok r)
  (body : r.body? = some n)

include first

/-- The first text makes module functions once and goes on. -/
theorem read_text (h : StatementAgain text other before line after names)
    (parsed : StubFile.parse text path = .ok f) :
    ∃ q, (after.zipIdx (before.length + 2)).foldlM Reading.step
        ({ r with comments := [] }.makeFunctions names) = .ok q ∧ q.finish = .ok f := by
  obtain ⟨q, read, finish⟩ := bind_eq_ok_iff.mp parsed
  rw [h.text, List.zipIdx_append, List.foldlM_append] at read
  obtain ⟨r', same, read⟩ := bind_eq_ok_iff.mp read
  obtain rfl : r = r' := Except.ok.inj (first.symm.trans same)
  rw [List.zipIdx_cons, List.foldlM_cons, Reading.step_of_statement h.statement,
    Nat.add_comm 1] at read
  exact ⟨q, read, finish⟩

include body

/-- The other text makes them twice and goes on alike. -/
theorem read_other (h : StatementAgain text other before line after names)
    (parsed : StubFile.parse text path = .ok f) :
    ∃ g, StubFile.parse other path = .ok g ∧
      CopiedIn r.current.1.slot ((moduleCopies names n.methods).map Method.unnumbered)
        f.namespaces g.namespaces := by
  obtain ⟨q, rest, finish⟩ := h.read_text first parsed
  let p : Reading := { r with comments := [] }
  have own : p.body? = some n := by rwa [Reading.body?_dropped]
  have mirrors := Reading.mirrors_again own (Reading.unaliased_body first body) names
  obtain ⟨q', rest', last⟩ := mirrors.lines h.below rest
  obtain ⟨g, finish', copied⟩ := last.finish finish
  rw [Reading.current_dropped] at copied
  refine ⟨g, bind_eq_ok_iff.mpr ⟨q', ?_, finish'⟩, copied⟩
  have used :
      ({ p.makeFunctions names with comments := [] } : Reading) = p.makeFunctions names := by
    have none : (p.makeFunctions names).comments = [] := p.comments_current
    rw [← none]
  rw [h.other, List.zipIdx_append, List.foldlM_append]
  refine bind_eq_ok_iff.mpr ⟨r, first, ?_⟩
  rw [List.zipIdx_cons, List.zipIdx_cons, List.foldlM_cons,
    Reading.step_of_statement h.statement, Nat.add_comm 1]
  refine bind_eq_ok_iff.mpr ⟨p.makeFunctions names, rfl, ?_⟩
  rw [List.foldlM_cons, Reading.step_of_statement h.statement, used]
  exact bind_eq_ok_iff.mpr ⟨_, rfl, rest'⟩

/-- What the statement has made stays in front of what follows. -/
theorem keys_kept (h : StatementAgain text other before line after names)
    (parsed : StubFile.parse text path = .ok f) :
    ∃ d, f.namespaces[r.current.1.slot]? = some d ∧ d.qualifiedName = n.qualifiedName ∧
      (names.foldl makeModuleFunction n.methods).map (·.key) <+: d.keys := by
  obtain ⟨q, rest, finish⟩ := h.read_text first parsed
  let p : Reading := { r with comments := [] }
  have own : p.body? = some n := by rwa [Reading.body?_dropped]
  let Made (m : Namespace) : Prop := m.qualifiedName = n.qualifiedName ∧
    (names.foldl makeModuleFunction n.methods).map (·.key) <+: m.keys
  have made : (p.makeFunctions names).Has p.current.1.slot Made :=
    ⟨_, Reading.body?_makeFunctions own names, rfl, List.prefix_rfl⟩
  have loop := Reading.foldlM_step (after.zipIdx (before.length + 2)) (p.makeFunctions names)
  rw [rest] at loop
  -- Every statement adds behind the methods that there are and keeps the name.
  have kept : ∀ {line : Nat} {m m' : Namespace}, m.Amended line m' → Made m → Made m' := by
    rintro line m m' amended ⟨name, keys⟩
    have same : m'.qualifiedName = m.qualifiedName := (congrArg (·.qualifiedName) amended.bare_eq :)
    exact ⟨same.trans name, keys.trans amended.keys_extend⟩
  have start : Reading.Has { p.makeFunctions names with comments := [] } p.current.1.slot Made :=
    made.of_eq rfl
  have last : Reading.Has { q with comments := [] } p.current.1.slot Made :=
    start.run kept loop.symm
  obtain ⟨m, found, name, keys⟩ := (last.of_eq rfl : q.Has _ Made).finish
    (toOption_eq_some_iff.mpr finish)
  rw [Reading.current_dropped] at found
  exact ⟨_, found, name, by rwa [keys_applyAliases]⟩

end Body

end StatementAgain

namespace Lint

def singletonsFound (s : Snapshot) (owner name : String) : Nat :=
  ((Rule.duplicateMember.check s).filter (Finding.Concerns owner (.method .singleton name))).length

/-- One is left out, whichever file it is in. -/
theorem singletonsFound_around {first rest : List StubFile} {f : StubFile} (parsed : f.Parsed)
    (others : ∀ x ∈ first ++ rest, x.Parsed) (version : Version) (directory : Path)
    (errors : List FileError) (owner name : String) :
    singletonsFound (.ofFiles version directory (first ++ f :: rest) errors) owner name =
      (((first ++ rest).flatMap (·.namespaces)).map
        (Namespace.occurrences owner (.method .singleton name))).sum +
      (f.namespaces.map (Namespace.occurrences owner (.method .singleton name))).sum - 1 := by
  have read : ∀ x ∈ first ++ f :: rest, x.Parsed := by
    simp only [List.forall_mem_append, List.forall_mem_cons] at others ⊢
    exact ⟨others.1, parsed, others.2⟩
  rw [singletonsFound, length_filter_check _ _ _ read, MemberName.length_entries]
  simp only [List.flatMap_append, List.flatMap_cons, List.map_append, List.sum_append]
  omega

end Lint

namespace StubFile

variable {text other path : String} {before after : List (List Char)} {line : List Char}
  {names : List String} {f : StubFile}

/-- If one text is read, then so is the one with the statement twice, and the same but for lines and
for further copies of the methods that are named, in the namespace where the statement stands. So
all methods stay the same exactly if no instance method of that namespace is named. Each name of one
adds a finding about its copies, and before that there are as many as there are copies but for one:
those that the statement makes and those that were there, such as the ones that a bare
`module_function` made. -/
theorem module_functions_repeated_iff (again : StatementAgain text other before line after names)
    (parsed : StubFile.parse text path = .ok f) :
    ∃ r n g, (before.zipIdx 1).foldlM Reading.step { path := path } = .ok r ∧ r.body? = some n ∧
      StubFile.parse other path = .ok g ∧
      CopiedIn r.current.1.slot ((moduleCopies names n.methods).map Method.unnumbered)
        f.namespaces g.namespaces ∧
      (g.namespaces.map (·.unnumberedMethods) = f.namespaces.map (·.unnumberedMethods) ↔
        ∀ name ∈ names, (.inst, name) ∉ n.keys) ∧
      ∀ first rest, (∀ x ∈ first ++ rest, x.Parsed) → ∀ version directory errors name,
        Lint.singletonsFound (.ofFiles version directory (first ++ g :: rest) errors)
            n.qualifiedName name =
          Lint.singletonsFound (.ofFiles version directory (first ++ f :: rest) errors)
            n.qualifiedName name + (if (.inst, name) ∈ n.keys then names.count name else 0) ∧
        ((.inst, name) ∈ n.keys → names.count name + n.keys.count (.singleton, name) ≤
          Lint.singletonsFound (.ofFiles version directory (first ++ f :: rest) errors)
            n.qualifiedName name + 1) := by
  obtain ⟨r, n, first, body⟩ := again.exists_body parsed
  obtain ⟨g, parsed', copied⟩ := again.read_other first body parsed
  obtain ⟨d, found, named, kept⟩ := again.keys_kept first body parsed
  have unaliased := Reading.unaliased_body first body
  refine ⟨r, n, g, first, body, parsed', copied, ?_, fun others rest read version directory errors
    name => ?_⟩
  · have inside := (List.getElem?_eq_some_iff.mp found).1
    rw [copied.methods_eq_iff inside, List.map_eq_nil_iff]
    exact unaliased.moduleCopies_eq_nil_iff names
  · have more := copied.sum_occurrences found .singleton name
    have keys : ((moduleCopies names n.methods).map Method.unnumbered).map (·.key) =
        (moduleCopies names n.methods).map (·.key) := List.map_map
    rw [keys, unaliased.count_key_moduleCopies, named] at more
    have own : d.occurrences n.qualifiedName (.method .singleton name) ≤
        (f.namespaces.map (Namespace.occurrences n.qualifiedName (.method .singleton name))).sum :=
      List.le_sum_of_mem (List.mem_map_of_mem (List.mem_of_getElem? found))
    have made := kept.sublist.count_le (.singleton, name)
    rw [← named, d.occurrences_method, named] at own
    rw [map_key_makeModuleFunctions, List.count_append, unaliased.count_key_moduleCopies] at made
    have counts : (n.methods.map (·.key)).count (.singleton, name) =
      n.keys.count (.singleton, name) := rfl
    rw [Lint.singletonsFound_around ⟨text, path, parsed⟩ read,
      Lint.singletonsFound_around ⟨other, path, parsed'⟩ read]
    -- The first statement's own copies are in the sum, so nothing is cut off at zero.
    by_cases known : (.inst, name) ∈ n.keys
    · have declared : (.inst, name) ∈ n.methods.map (·.key) := known
      rw [if_pos declared] at more made
      rw [if_pos known]
      exact ⟨by omega, fun _ => by omega⟩
    · have undeclared : (.inst, name) ∉ n.methods.map (·.key) := known
      rw [if_neg undeclared] at more
      rw [if_neg known]
      exact ⟨by omega, fun declared => absurd declared known⟩

def openText : String :=
  "module Kernel\nmodule_function\ndef rand; end\nmodule_function :open\nend"

def openAgainText : String :=
  "module Kernel\nmodule_function\ndef rand; end\nmodule_function :open\nmodule_function :open\nend"

/-- A module with a method on a line and with copies of it. -/
def kernelFile (line copies : Nat) : StubFile where
  path := "kernel.rb"
  namespaces :=
    [{ kind := .modul, name := "Kernel", qualifiedName := "Kernel", path := "kernel.rb", line := 1,
       methods := { name := "rand", visibility := .priv, line := line } ::
        List.replicate copies { name := "rand", receiver := .singleton, line := line } }]

theorem unknown_name_repeated :
    (StubFile.parse openText "kernel.rb").toOption = some (kernelFile 3 1) ∧
      ∃ g, StubFile.parse openAgainText "kernel.rb" = .ok g ∧
        g.namespaces.map (·.unnumberedMethods) =
          (kernelFile 3 1).namespaces.map (·.unnumberedMethods) := by
  have parsed : (StubFile.parse openText "kernel.rb").toOption = some (kernelFile 3 1) := by decide
  let before := (Text.lines openText.toList).take 3
  have again : StatementAgain openText openAgainText before "module_function :open".toList
      ["end".toList] ["open"] := ⟨by decide, by decide, by decide, by decide⟩
  obtain ⟨r, n, g, read, body, parsed', -, same, -⟩ :=
    module_functions_repeated_iff again (toOption_eq_some_iff.mp parsed)
  have keys : ((before.zipIdx 1).foldlM Reading.step { path := "kernel.rb" }).toOption.bind
      (fun r => r.body?.map (·.keys)) = some [(.inst, "rand"), (.singleton, "rand")] := by decide
  rw [read, toOption_eq_some_iff.mpr rfl, Option.bind_some, body, Option.map_some] at keys
  refine ⟨parsed, g, parsed', same.mpr ?_⟩
  rw [Option.some.inj keys]
  decide

def kernelSnapshot (f : StubFile) : Snapshot := .ofFiles ⟨3, 3⟩ { parts := ["stubs"] } [f] []

def randText : String := "module Kernel\ndef rand; end\nmodule_function :rand\nend"

def randAgainText : String :=
  "module Kernel\ndef rand; end\nmodule_function :rand\nmodule_function :rand\nend"

def bareRandText : String :=
  "module Kernel\nmodule_function\ndef rand; end\nmodule_function :rand\nend"

/-- A second statement makes a second copy, and so does the first one below a bare
`module_function`. Each is found as a member that is declared twice. -/
theorem module_function_copied_again :
    (StubFile.parse randText "kernel.rb").toOption = some (kernelFile 2 1) ∧
      (StubFile.parse randAgainText "kernel.rb").toOption = some (kernelFile 2 2) ∧
      (StubFile.parse bareRandText "kernel.rb").toOption = some (kernelFile 3 2) ∧
      Lint.singletonsFound (kernelSnapshot (kernelFile 2 1)) "Kernel" "rand" = 0 ∧
      Lint.singletonsFound (kernelSnapshot (kernelFile 2 2)) "Kernel" "rand" = 1 ∧
      Lint.singletonsFound (kernelSnapshot (kernelFile 3 2)) "Kernel" "rand" = 1 := by
  refine ⟨by decide, by decide, by decide, by decide, by decide, by decide⟩

end StubFile

end RubyIndex
