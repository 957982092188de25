import RubyIndex.Proofs.StatementStep

/-! The order of the namespaces of a file. The line loop lists a namespace when it reads its first
line, and only adds to it afterwards. -/
namespace RubyIndex

def openedLines (namespaces : List Namespace) : List Nat :=
  (namespaces.filter (!·.implicit)).map (·.line)

theorem openedLines_append (first second : List Namespace) :
    openedLines (first ++ second) = openedLines first ++ openedLines second := by
  simp [openedLines]

theorem openedLines_map (namespaces : List Namespace) (change : Namespace → Namespace)
    (keeps : ∀ n, (change n).bare = n.bare) :
    openedLines (namespaces.map change) = openedLines namespaces := by
  have line n : (change n).bare.line = n.bare.line := congrArg _ (keeps n)
  have implicit n : (change n).bare.implicit = n.bare.implicit := congrArg _ (keeps n)
  simp only [Namespace.bare] at line implicit
  simp only [openedLines, List.filter_map, List.map_map, Function.comp_def, line, implicit]

theorem openedLines_modify (namespaces : List Namespace) (slot : Nat)
    (change : Namespace → Namespace) (keeps : ∀ n, (change n).bare = n.bare) :
    openedLines (namespaces.modify slot change) = openedLines namespaces := by
  induction namespaces generalizing slot with
  | nil => rw [List.modify_nil]
  | cons n rest ih =>
    have head : openedLines [change n] = openedLines [n] := openedLines_map [n] change keeps
    cases slot with
    | zero =>
      rw [List.modify_zero_cons, ← List.singleton_append, openedLines_append, head,
        ← openedLines_append, List.singleton_append]
    | succ slot =>
      rw [List.modify_succ_cons, ← List.singleton_append, openedLines_append, ih,
        ← openedLines_append, List.singleton_append]

namespace Reading

theorem openedLines_current (r : Reading) :
    openedLines r.current.2.namespaces = openedLines r.namespaces := by
  unfold current
  split <;> simp [addNamespace, openedLines]

theorem openedLines_setCurrent (r : Reading) (s : Scope) :
    openedLines (r.setCurrent s).namespaces = openedLines r.namespaces := by
  unfold setCurrent
  split <;> rfl

theorem openedLines_plain {r r' : Reading} (h : Plain r r') :
    openedLines r'.namespaces = openedLines r.namespaces := by
  cases h with
  | edit change keeps =>
    exact (openedLines_modify _ _ change keeps).trans r.openedLines_current
  | scope s => exact (openedLines_setCurrent _ s).trans r.openedLines_current
  | note globals diagnostics => rfl

theorem openedLines_openNamespace (r : Reading) (h : Header) (line : Nat)
    (documentation : Option String) :
    openedLines (r.openNamespace h line documentation).namespaces =
      openedLines r.namespaces ++ [line] := by
  rw [openNamespace_eq]
  exact openedLines_append _ _

theorem openedLines_pop {r r' : Reading} (h : r.pop? = some r') :
    openedLines r'.namespaces = openedLines r.namespaces := by
  unfold pop? at h
  split at h
  · cases h
  · cases h
    rfl

end Reading

def Located.headerLines (l : Located) : List Nat :=
  match l.statement with
  | .openNamespace _ => [l.line]
  | _ => []

namespace Reading

theorem openedLines_act {r r' : Reading} {l : Located} (h : r.act? l = some r') :
    openedLines r'.namespaces = openedLines r.namespaces ++ l.headerLines := by
  unfold Located.headerLines
  cases hs : l.statement with
  | openNamespace header =>
    rw [← openedLines_openNamespace r header l.line l.documentation]
    rw [act?, hs, apply] at h
    split at h
    · rw [toOption_close] at h
      exact openedLines_pop h
    · cases h
      rfl
  | close =>
    rw [act?, hs, apply, toOption_close] at h
    rw [openedLines_pop h, List.append_nil]
  | openSingleton =>
    rw [act?, hs] at h
    cases h
    rw [List.append_nil]
    exact r.openedLines_current
  | _ =>
    rw [List.append_nil]
    exact openedLines_plain (plain_cases (l := l) (by simpa [plain?, hs] using h))

/-- The line loop lists the namespaces in the order of the statements that open them. -/
theorem openedLines_run {r r' : Reading} {ls : List Located} (h : r.run? ls = some r') :
    openedLines r'.namespaces = openedLines r.namespaces ++ ls.flatMap (·.headerLines) := by
  induction ls generalizing r with
  | nil =>
    cases h
    simp
  | cons l ls ih =>
    obtain ⟨r₁, act, run⟩ := Option.bind_eq_some_iff.mp (show (r.act? l).bind _ = some r' from h)
    rw [ih run, openedLines_act act, List.append_assoc, List.flatMap_cons]

end Reading

/-- The statements of a file stand on lines with ascending numbers. -/
theorem located_ascending (lines : List (List Char)) (comments : List (List Char)) (first : Nat) :
    ((located comments (lines.zipIdx first)).map (·.line)).Pairwise (· < ·) ∧
      ∀ l ∈ located comments (lines.zipIdx first), first ≤ l.line := by
  induction lines generalizing comments first with
  | nil => simp [located]
  | cons raw lines ih =>
    have later : ∀ comments, ∀ l ∈ located comments (lines.zipIdx (first + 1)), first ≤ l.line :=
      fun comments l hl => Nat.le_of_succ_le ((ih comments (first + 1)).2 l hl)
    rw [List.zipIdx_cons, located]
    cases Line.read first raw with
    | blank => exact ⟨(ih [] _).1, later []⟩
    | magic => exact ⟨(ih comments _).1, later comments⟩
    | comment text => exact ⟨(ih _ _).1, later _⟩
    | code source =>
      simp only [List.map_cons, List.pairwise_cons, List.mem_map, List.mem_cons]
      refine ⟨⟨?_, (ih [] _).1⟩, ?_⟩
      · rintro _ ⟨l, hl, rfl⟩
        exact (ih [] _).2 l hl
      · rintro l (rfl | hl)
        · exact Nat.le_refl _
        · exact later [] l hl

theorem headerLines_sublist (ls : List Located) :
    (ls.flatMap (·.headerLines)).Sublist (ls.map (·.line)) := by
  induction ls with
  | nil => exact .slnil
  | cons l ls ih =>
    rw [List.flatMap_cons, List.map_cons, Located.headerLines]
    split
    · exact ih.cons_cons l.line
    · exact ih.cons l.line

namespace StubFile

theorem openedLines_finish {r : Reading} {f : StubFile} (h : r.finish? = some f) :
    openedLines f.namespaces = openedLines r.namespaces := by
  unfold Reading.finish? Reading.finish at h
  split at h
  · cases h
  · cases h
    exact openedLines_map _ _ fun _ => rfl

end StubFile

end RubyIndex
