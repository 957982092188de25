import RubyIndex.Proofs.StatementStep

/-! The line loop over the tree of blocks. The loop over the statements of a body opens, runs and
closes each block in it, and leaves the scopes around the body as they were. -/
namespace RubyIndex

def Located.opens (l : Located) : Bool :=
  match l.statement with
  | .openSingleton => true
  | .openNamespace h => !h.closed
  | _ => false

namespace Reading

/-- The scopes around the innermost one are the same, and so is the scope outside all bodies if it
is not the innermost. -/
structure Around (r r' : Reading) : Prop where
  depth : r'.scopes.length = r.scopes.length
  outer : r'.scopes.tail = r.scopes.tail
  outermost : r.scopes ≠ [] → r'.outermost = r.outermost

namespace Around

variable {r r' r'' : Reading}

theorem of_scopes (scopes : r'.scopes = r.scopes)
    (outermost : r.scopes ≠ [] → r'.outermost = r.outermost) : Around r r' :=
  ⟨by rw [scopes], by rw [scopes], outermost⟩

theorem refl (r : Reading) : Around r r := of_scopes rfl fun _ => rfl

theorem trans (h : Around r r') (h' : Around r' r'') : Around r r'' where
  depth := h'.depth.trans h.depth
  outer := h'.outer.trans h.outer
  outermost := by
    intro inside
    have inside' : r'.scopes ≠ [] := by
      rw [← List.length_pos_iff, h.depth]
      exact List.length_pos_iff.mpr inside
    exact (h'.outermost inside').trans (h.outermost inside)

/-- Closing a body gives back the scopes that were there when it was opened. -/
theorem scopes_pop {s : Scope} {outer : List Scope} (h : Around r r')
    (opened : r.scopes = s :: outer) : r'.pop? = some { r' with scopes := outer } := by
  have depth := h.depth
  have same := h.outer
  rw [opened] at depth same
  unfold pop?
  cases inner : r'.scopes with
  | nil => simp [inner] at depth
  | cons s' outer' =>
    obtain rfl : outer' = outer := by simpa [inner] using same
    rfl

end Around

theorem around_current (r : Reading) : Around r r.current.2 := by
  refine .of_scopes r.scopes_current fun inside => ?_
  unfold current
  split <;> simp_all

theorem around_setCurrent (r : Reading) (s : Scope) : Around r (r.setCurrent s) := by
  unfold setCurrent
  split
  · next h => exact ⟨by simp [h], by simp [h], fun _ => rfl⟩
  · next h => exact ⟨by simp [h], by simp [h], fun inside => absurd h inside⟩

theorem around_plain {r r' : Reading} (h : Plain r r') : Around r r' := by
  cases h with
  | edit change keeps => exact r.around_current.trans (.of_scopes rfl fun _ => rfl)
  | scope s => exact r.around_current.trans (r.current.2.around_setCurrent s)
  | note globals diagnostics => exact .of_scopes rfl fun _ => rfl

theorem scopes_openSingleton (r : Reading) (line : Nat) :
    ∃ s, (r.openSingleton line).scopes = s :: r.scopes :=
  ⟨_, congrArg (_ :: ·) r.scopes_current⟩

theorem act_opens {r : Reading} {l : Located} (h : l.opens = true) :
    ∃ opened s, r.act? l = some opened ∧ opened.scopes = s :: r.scopes ∧
      (opened.outermost = r.outermost ∨ opened.outermost = r.current.2.outermost) := by
  unfold Located.opens at h
  unfold act?
  cases hs : l.statement with
  | openSingleton =>
    obtain ⟨s, scopes⟩ := r.scopes_openSingleton l.line
    exact ⟨_, s, rfl, scopes, Or.inr rfl⟩
  | openNamespace header =>
    have closed : ¬header.closed = true := by simpa [hs] using h
    refine ⟨r.openNamespace header l.line l.documentation, _, ?_, rfl, Or.inl rfl⟩
    simp [apply, closed, Except.toOption]
  | _ => simp [hs] at h

end Reading

namespace Body

open Reading

def run : Body → Reading → Option Reading
  | nil, r => some r
  | plain l rest, r => (r.plain? l).bind rest.run
  | block h line documentation inside rest, r =>
    ((inside.run (r.openNamespace h line documentation)).bind pop?).bind rest.run
  | singleton line inside rest, r =>
    ((inside.run (r.openSingleton line)).bind pop?).bind rest.run

/-- A block leaves the scopes as they were when it was opened. -/
theorem run_block {inside : Body} {opened r : Reading} {s : Scope} {outer : List Scope}
    (ih : ∀ {r r'}, inside.run r = some r' → Around r r') (scopes : opened.scopes = s :: outer)
    (h : (inside.run opened).bind pop? = some r) :
    r.scopes = outer ∧ r.outermost = opened.outermost := by
  obtain ⟨last, hi, hp⟩ := Option.bind_eq_some_iff.mp h
  have around := ih hi
  rw [around.scopes_pop scopes] at hp
  cases hp
  exact ⟨rfl, around.outermost (by simp [scopes])⟩

theorem run_around {b : Body} {r r' : Reading} (h : b.run r = some r') : Around r r' := by
  induction b generalizing r r' with
  | nil =>
    cases h
    exact .refl r
  | plain l rest ih =>
    obtain ⟨r₁, h₁, h⟩ := Option.bind_eq_some_iff.mp h
    exact (around_plain (plain_cases h₁)).trans (ih h)
  | block header line documentation inside rest inside_ih rest_ih =>
    obtain ⟨r₁, h₁, h⟩ := Option.bind_eq_some_iff.mp h
    obtain ⟨scopes, outermost⟩ := run_block inside_ih rfl h₁
    exact (Around.of_scopes scopes fun _ => outermost).trans (rest_ih h)
  | singleton line inside rest inside_ih rest_ih =>
    obtain ⟨r₁, h₁, h⟩ := Option.bind_eq_some_iff.mp h
    obtain ⟨s, opened⟩ := r.scopes_openSingleton line
    obtain ⟨scopes, outermost⟩ := run_block inside_ih opened h₁
    refine (Around.of_scopes scopes fun nested => ?_).trans (rest_ih h)
    exact outermost.trans (r.around_current.outermost nested)

def runOuter : List Body → Reading → Option Reading
  | [], r => some r
  | b :: outer, r => (r.pop?.bind b.run).bind (runOuter outer)

end Body

namespace Located

open Body Reading

variable {l : Located} {b : Body} {outer levels : List Body}

/-- Running a statement and then some bodies is running the bodies with the statement in them. -/
theorem run_group (h : l.group (b :: outer) = some levels) : ∃ b' outer', levels = b' :: outer' ∧
    ∀ r : Reading, ((r.act? l).bind b.run).bind (runOuter outer) =
      (b'.run r).bind (runOuter outer') := by
  unfold group at h
  cases hs : l.statement with
  | close =>
    simp only [hs, Option.some.injEq] at h
    refine ⟨_, _, h.symm, fun r => ?_⟩
    simp [act?, hs, Reading.apply, toOption_close, Body.run, runOuter]
  | openNamespace header =>
    by_cases closed : header.closed = true
    · simp only [hs, closed, if_true, Option.some.injEq] at h
      refine ⟨_, _, h.symm, fun r => ?_⟩
      simp [act?, hs, Reading.apply, closed, toOption_close, Body.run]
    · cases outer with
      | nil => simp [hs, closed] at h
      | cons rest outer =>
        simp only [hs, closed, Bool.false_eq_true, if_false, Option.some.injEq] at h
        refine ⟨_, _, h.symm, fun r => ?_⟩
        simp [act?, hs, Reading.apply, closed, Except.toOption, Body.run, runOuter,
          Option.bind_assoc]
  | openSingleton =>
    cases outer with
    | nil => simp [hs] at h
    | cons rest outer =>
      simp only [hs, Option.some.injEq] at h
      refine ⟨_, _, h.symm, fun r => ?_⟩
      simp [act?, hs, Reading.apply, Except.toOption, Body.run, runOuter, Option.bind_assoc]
  | _ =>
    simp only [hs, Option.some.injEq] at h
    refine ⟨_, _, h.symm, fun r => ?_⟩
    simp [Body.run, plain?, hs]

/-- Only the first line of a block that is never closed has no place before some bodies. -/
theorem opens_of_group_eq_none (h : l.group (b :: outer) = none) :
    l.opens = true ∧ outer = [] := by
  unfold group at h
  unfold opens
  cases hs : l.statement with
  | openNamespace header =>
    by_cases closed : header.closed = true
    · simp [hs, closed] at h
    · cases outer with
      | nil => exact ⟨by simpa using closed, rfl⟩
      | cons rest outer => simp [hs, closed] at h
  | openSingleton =>
    cases outer with
    | nil => exact ⟨rfl, rfl⟩
    | cons rest outer => simp [hs] at h
  | _ => simp [hs] at h

theorem scopes_of_group_eq_none {r r' : Reading} (h : l.group (b :: outer) = none)
    (run : ((r.act? l).bind b.run).bind (runOuter outer) = some r') : r'.scopes ≠ [] := by
  obtain ⟨opens, rfl⟩ := opens_of_group_eq_none h
  obtain ⟨opened, s, act, scopes, -⟩ := act_opens (r := r) opens
  rw [act, Option.bind_some] at run
  obtain ⟨last, hl, rfl⟩ : ∃ last, b.run opened = some last ∧ last = r' := by
    simpa [runOuter] using run
  rw [← List.length_pos_iff, (run_around hl).depth, scopes]
  exact Nat.succ_pos _

end Located

open Body

/-- The line loop runs the bodies that its statements make, one after the other. -/
theorem run_bodies {ls : List Located} {levels : List Body} (h : bodies ls = some levels) :
    ∃ b outer, levels = b :: outer ∧
      ∀ r : Reading, r.run? ls = (b.run r).bind (runOuter outer) := by
  induction ls generalizing levels with
  | nil =>
    obtain rfl : [Body.nil] = levels := Option.some.inj h
    exact ⟨_, _, rfl, fun r => rfl⟩
  | cons l ls ih =>
    rw [bodies, List.foldrM_cons] at h
    obtain ⟨levels, below, h⟩ := Option.bind_eq_some_iff.mp h
    obtain ⟨b, outer, rfl, same⟩ := ih below
    obtain ⟨b', outer', rfl, joined⟩ := l.run_group h
    refine ⟨b', outer', rfl, fun r => ?_⟩
    rw [← joined, Option.bind_assoc, ← funext same]
    rfl

/-- If the blocks are not closed where they ought to be, a body is open after the line loop. -/
theorem scopes_of_bodies_eq_none {ls : List Located} {r r' : Reading} (h : bodies ls = none)
    (run : r.run? ls = some r') : r'.scopes ≠ [] := by
  induction ls generalizing r with
  | nil => cases h
  | cons l ls ih =>
    rw [bodies, List.foldrM_cons] at h
    obtain ⟨r₁, act, run⟩ := Option.bind_eq_some_iff.mp (show (r.act? l).bind _ = some r' from run)
    cases below : bodies ls with
    | none => exact ih below run
    | some levels =>
      obtain ⟨b, outer, rfl, same⟩ := run_bodies below
      rw [show ls.foldrM Located.group [.nil] = _ from below] at h
      refine l.scopes_of_group_eq_none h (r := r) ?_
      rw [act]
      exact (same r₁).symm.trans run

namespace Reading

theorem finish?_of_scopes {r : Reading} (h : r.scopes ≠ []) : r.finish? = none := by
  unfold finish? finish
  split
  · rfl
  · contradiction

/-- Outside all blocks the line loop ends well only if its statements make one body. -/
theorem run_finish {r : Reading} (outside : r.scopes = []) (ls : List Located) :
    (r.run? ls).bind finish? =
      match bodies ls with
      | some [b] => (b.run r).bind finish?
      | _ => none := by
  cases h : bodies ls with
  | none =>
    refine Option.bind_eq_none_iff.mpr fun r' run => ?_
    exact finish?_of_scopes (scopes_of_bodies_eq_none h run)
  | some levels =>
    obtain ⟨b, outer, rfl, same⟩ := run_bodies h
    rw [same]
    cases outer with
    | nil => rw [Option.bind_assoc]; rfl
    | cons next outer =>
      -- The `end` before the second body has no body to close.
      have stuck : ∀ r', b.run r = some r' → r'.pop? = none := by
        intro r' run
        have depth := (run_around run).depth
        rw [outside] at depth
        rw [pop?, List.eq_nil_of_length_eq_zero depth]
      refine Option.bind_eq_none_iff.mpr fun last run => absurd run ?_
      simp only [runOuter]
      cases hr : b.run r with
      | none => simp
      | some r' => simp [stuck r' hr]

end Reading

/-- What the definitions that follow become: the receiver, the default visibility, and whether they
are module functions. -/
def Scope.mode (s : Scope) : Receiver × Visibility × Bool :=
  (s.receiver, s.visibility, s.moduleFunctions)

namespace Reading

variable {r r' : Reading}

theorem current_same (scopes : r'.scopes = r.scopes)
    (outermost : r'.outermost = r.outermost ∨ r'.outermost = r.current.2.outermost) :
    r'.current.1.owner = r.current.1.owner ∧ r'.current.1.mode = r.current.1.mode := by
  unfold current at *
  rw [scopes]
  cases hs : r.scopes with
  | cons s outer => exact ⟨rfl, rfl⟩
  | nil =>
    cases ho : r.outermost <;> simp only [hs, ho, or_self] at outermost
    · rcases outermost with h | h <;> rw [h] <;> exact ⟨rfl, rfl⟩
    · rw [outermost]
      exact ⟨rfl, rfl⟩

/-- Whatever stands in a block, its `end` gives back the scopes that were open before it. What
follows belongs to the same namespace and becomes what it would have become before the block. -/
theorem block_restores {l last : Located} {inside : List Located} {b : Body}
    (opens : l.opens = true) (closes : last.statement = .close) (whole : bodies inside = some [b])
    (run : r.run? (l :: inside ++ [last]) = some r') :
    r'.scopes = r.scopes ∧ r'.current.1.owner = r.current.1.owner ∧
      r'.current.1.mode = r.current.1.mode := by
  obtain ⟨opened, s, act, scopes, outermost⟩ := act_opens (r := r) opens
  obtain ⟨_, _, eq, same⟩ := run_bodies whole
  obtain ⟨rfl, rfl⟩ := List.cons.inj eq
  have ran : opened.run? inside = b.run opened := by
    rw [same]
    exact Option.bind_fun_some _
  have ends : ∀ r : Reading, r.act? last = r.pop? := fun r => by
    rw [act?, closes, apply, toOption_close]
  have block : (b.run opened).bind pop? = some r' := by
    rw [← ran, ← run, ← funext ends]
    simp [run?, act]
  obtain ⟨restored, kept⟩ := run_block run_around scopes block
  exact ⟨restored, current_same restored (by rwa [kept])⟩

end Reading

end RubyIndex
