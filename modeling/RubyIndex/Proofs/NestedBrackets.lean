import Mathlib.Data.List.Induction
import RubyIndex.Parameter.Split

/-! Words of brackets. A word is well nested exactly if closing its brackets one after the other,
each with the innermost one that is open, goes through and leaves none open. -/
namespace RubyIndex.Parameter

inductive Nested : List Char → Prop
  | nil : Nested []
  | pair {opener closer : Char} {inside rest : List Char} (closes : openerOf? closer = some opener)
      (within : Nested inside) (behind : Nested rest) : Nested (opener :: inside ++ closer :: rest)

/-- A closing bracket closes wrongly after a word if what it closes is not the innermost bracket
that the word leaves open. -/
def Stray (before : List Char) (closer : Char) : Prop :=
  ∃ opener, openerOf? closer = some opener ∧
    ∀ outer inside, before = outer ++ opener :: inside → ¬Nested inside

/-- Whether no prefix of a word closes wrongly. -/
def Sound (word : List Char) : Prop :=
  ∀ before closer after, word = before ++ closer :: after → ¬Stray before closer

def closeAll (opened : List Char) : List Char → Except Char (List Char)
  | [] => .ok opened
  | c :: rest =>
    match openerOf? c with
    | none => closeAll (c :: opened) rest
    | some opener => if opened.head? = some opener then closeAll opened.tail rest else .error c

variable {opened left before word inside rest : List Char} {opener closer c : Char}

theorem openerOf?_opener (closes : openerOf? closer = some opener) : openerOf? opener = none := by
  unfold openerOf? at closes
  split at closes <;> cases closes <;> rfl

theorem closeAll_append (opened word rest : List Char) :
    closeAll opened (word ++ rest) = closeAll opened word >>= fun left => closeAll left rest := by
  induction word generalizing opened with
  | nil => rfl
  | cons c word ih =>
    rw [List.cons_append, closeAll, closeAll]
    cases openerOf? c with
    | none => exact ih _
    | some opener =>
      by_cases innermost : opened.head? = some opener
      · simp only [innermost, if_true]
        exact ih _
      · simp only [innermost, if_false]
        rfl

theorem closeAll_opener (bare : openerOf? c = none) (opened rest : List Char) :
    closeAll opened (c :: rest) = closeAll (c :: opened) rest := by
  rw [closeAll, bare]

theorem closeAll_closer (closes : openerOf? closer = some opener) (opened rest : List Char) :
    closeAll opened (closer :: rest) =
      if opened.head? = some opener then closeAll opened.tail rest else .error closer := by
  rw [closeAll, closes]

/-- A well-nested word leaves open what is open before it. -/
theorem closeAll_nested (h : Nested word) (opened : List Char) :
    closeAll opened word = .ok opened := by
  induction h generalizing opened with
  | nil => rfl
  | @pair opener closer inside rest closes within behind inside_ih rest_ih =>
    rw [closeAll_append, closeAll_opener (openerOf?_opener closes), inside_ih]
    change closeAll (opener :: opened) (closer :: rest) = _
    rw [closeAll_closer closes, List.head?_cons, if_pos rfl]
    exact rest_ih opened

theorem Nested.append (h : Nested word) (k : Nested rest) : Nested (word ++ rest) := by
  induction h with
  | nil => exact k
  | @pair opener closer inside rest closes within behind _ ih =>
    rw [List.append_assoc, List.cons_append]
    exact .pair closes within ih

/-- What a word leaves open, innermost first: the brackets behind which all is well nested. -/
inductive LeavesOpen : List Char → List Char → Prop
  | nested {word : List Char} (h : Nested word) : LeavesOpen word []
  | bracket {before inside left : List Char} {c : Char} (around : LeavesOpen before left)
      (bare : openerOf? c = none) (within : Nested inside) :
      LeavesOpen (before ++ c :: inside) (c :: left)

theorem LeavesOpen.append (h : LeavesOpen word left) (k : Nested rest) :
    LeavesOpen (word ++ rest) left := by
  cases h with
  | nested h => exact .nested (h.append k)
  | bracket around bare within =>
    rw [List.append_assoc, List.cons_append]
    exact .bracket around bare (within.append k)

/-- Closing the brackets of a word leaves open what the word does. -/
theorem leavesOpen_of_closeAll (h : closeAll [] word = .ok left) : LeavesOpen word left := by
  induction word using List.reverseRecOn generalizing left with
  | nil =>
    cases h
    exact .nested .nil
  | append_singleton word c ih =>
    rw [closeAll_append] at h
    cases ran : closeAll [] word with
    | error e =>
      rw [ran] at h
      cases h
    | ok earlier =>
      rw [ran] at h
      change closeAll earlier [c] = _ at h
      have before := ih ran
      cases bare : openerOf? c with
      | none =>
        rw [closeAll_opener bare] at h
        cases h
        exact .bracket before bare .nil
      | some opener =>
        rw [closeAll_closer bare] at h
        split at h
        · next innermost =>
          cases h
          cases before with
          | nested => cases innermost
          | bracket around _ within =>
            obtain rfl := Option.some.inj innermost
            rw [List.append_assoc]
            exact around.append (.pair bare within .nil)
        · cases h

theorem closeAll_eq_nil_iff : closeAll [] word = .ok [] ↔ Nested word := by
  constructor
  · intro h
    cases leavesOpen_of_closeAll h with
    | nested h => exact h
  · intro h
    exact closeAll_nested h []

/-- A bracket behind which all is well nested is the innermost one that is open. -/
theorem head?_of_closeAll (ran : closeAll [] (before ++ c :: inside) = .ok left)
    (bare : openerOf? c = none) (within : Nested inside) : left.head? = some c := by
  rw [closeAll_append] at ran
  cases earlier : closeAll [] before with
  | error e =>
    rw [earlier] at ran
    cases ran
  | ok opened =>
    rw [earlier] at ran
    change closeAll opened (c :: inside) = _ at ran
    rw [closeAll_opener bare, closeAll_nested within] at ran
    cases ran
    rfl

theorem stray_iff (ran : closeAll [] before = .ok left) :
    Stray before closer ↔ ∃ opener, openerOf? closer = some opener ∧ left.head? ≠ some opener := by
  refine exists_congr fun opener => and_congr_right fun closes => ?_
  constructor
  · intro wrong innermost
    cases leavesOpen_of_closeAll ran with
    | nested h => cases innermost
    | bracket around bare within =>
      obtain rfl := Option.some.inj innermost
      exact wrong _ _ rfl within
  · rintro other outer inside rfl within
    exact other (head?_of_closeAll ran (openerOf?_opener closes) within)

theorem exists_closeAll_of_append (ran : closeAll [] (before ++ rest) = .ok left) :
    ∃ opened, closeAll [] before = .ok opened ∧ closeAll opened rest = .ok left := by
  rw [closeAll_append] at ran
  cases earlier : closeAll [] before with
  | error e =>
    rw [earlier] at ran
    cases ran
  | ok opened =>
    rw [earlier] at ran
    exact ⟨opened, rfl, ran⟩

theorem sound_of_closeAll (ran : closeAll [] word = .ok left) : Sound word := by
  rintro before closer after rfl wrong
  obtain ⟨opened, earlier, onward⟩ := exists_closeAll_of_append ran
  obtain ⟨opener, closes, other⟩ := (stray_iff earlier).mp wrong
  rw [closeAll_closer closes, if_neg other] at onward
  cases onward

def FirstStray (word : List Char) (closer : Char) : Prop :=
  ∃ before after, word = before ++ closer :: after ∧ Sound before ∧ Stray before closer

theorem firstStray_of_closeAll (stopped : closeAll [] word = .error closer) :
    FirstStray word closer := by
  induction word using List.reverseRecOn with
  | nil => cases stopped
  | append_singleton word c ih =>
    rw [closeAll_append] at stopped
    cases ran : closeAll [] word with
    | error e =>
      rw [ran] at stopped
      cases stopped
      obtain ⟨before, after, rfl, sound, wrong⟩ := ih ran
      exact ⟨before, after ++ [c], by simp, sound, wrong⟩
    | ok left =>
      rw [ran] at stopped
      change closeAll left [c] = _ at stopped
      cases bare : openerOf? c with
      | none =>
        rw [closeAll_opener bare] at stopped
        cases stopped
      | some opener =>
        rw [closeAll_closer bare] at stopped
        split at stopped
        · cases stopped
        · next other =>
          cases stopped
          exact ⟨word, [], rfl, sound_of_closeAll ran, (stray_iff ran).mpr ⟨opener, bare, other⟩⟩

theorem exists_closeAll_iff : (∃ left, closeAll [] word = .ok left) ↔ Sound word := by
  constructor
  · rintro ⟨left, ran⟩
    exact sound_of_closeAll ran
  · intro sound
    cases ran : closeAll [] word with
    | ok left => exact ⟨left, rfl⟩
    | error closer =>
      obtain ⟨before, after, eq, -, wrong⟩ := firstStray_of_closeAll ran
      exact absurd wrong (sound before closer after eq)

theorem closeAll_eq_error_iff : closeAll [] word = .error closer ↔ FirstStray word closer := by
  constructor
  · exact firstStray_of_closeAll
  · rintro ⟨before, after, rfl, sound, wrong⟩
    obtain ⟨left, ran⟩ := exists_closeAll_iff.mpr sound
    obtain ⟨opener, closes, other⟩ := (stray_iff ran).mp wrong
    rw [closeAll_append, ran]
    change closeAll left (closer :: after) = _
    rw [closeAll_closer closes, if_neg other]

def Innermost (word : List Char) (c : Char) : Prop :=
  ∃ outer inside, word = outer ++ c :: inside ∧ openerOf? c = none ∧ Nested inside

theorem innermost_iff (ran : closeAll [] word = .ok left) :
    Innermost word c ↔ left.head? = some c := by
  constructor
  · rintro ⟨outer, inside, rfl, bare, within⟩
    exact head?_of_closeAll ran bare within
  · intro innermost
    cases leavesOpen_of_closeAll ran with
    | nested h => cases innermost
    | bracket around bare within =>
      obtain rfl := Option.some.inj innermost
      exact ⟨_, _, rfl, bare, within⟩

end RubyIndex.Parameter
