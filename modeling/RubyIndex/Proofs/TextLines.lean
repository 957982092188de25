import RubyIndex.Text.Lines

/-! Breaking a text into lines. What holds no line end belongs to one line, which the first line end
after it closes. -/
namespace RubyIndex.Text

variable {s e : List Char}

/-- A line end as it is written: one character, or a carriage return and a line feed. A carriage
return alone is left out, since it goes together with a line feed that follows. -/
inductive LineEnd : List Char → Prop
  | single (c : Char) (ends : isLineEnd c = true) (plain : c ≠ '\r') : LineEnd [c]
  | returned : LineEnd ['\r', '\n']

theorem linesAfter_append (unbroken : ∀ c ∈ s, isLineEnd c = false) (current rest : List Char) :
    linesAfter current (s ++ rest) = linesAfter (s.reverse ++ current) rest := by
  induction s generalizing current with
  | nil => rfl
  | cons c s ih =>
    obtain ⟨first, others⟩ := List.forall_mem_cons.mp unbroken
    have onward : linesAfter current (c :: s ++ rest) = linesAfter (c :: current) (s ++ rest) := by
      rw [List.cons_append, linesAfter.eq_def]
      split
      · next none => cases none
      · next returned =>
        obtain ⟨rfl, -⟩ := List.cons.inj returned
        cases first
      · next d after _ same =>
        obtain ⟨rfl, rfl⟩ := List.cons.inj same
        simp [first]
    rw [onward, ih others, List.reverse_cons, List.append_assoc, List.singleton_append]

theorem linesAfter_end (ending : LineEnd e) (current rest : List Char) :
    linesAfter current (e ++ rest) = current.reverse :: lines rest := by
  cases ending with
  | returned => rfl
  | single c ends plain =>
    rw [List.singleton_append, linesAfter.eq_def]
    split
    · next none => cases none
    · next returned => exact absurd (List.cons.inj returned).1 plain
    · next d after _ same =>
      obtain ⟨rfl, rfl⟩ := List.cons.inj same
      rw [if_pos ends, lines]

theorem lines_end (unbroken : ∀ c ∈ s, isLineEnd c = false) (ending : LineEnd e)
    (rest : List Char) : lines (s ++ e ++ rest) = s :: lines rest := by
  rw [lines, List.append_assoc, linesAfter_append unbroken, linesAfter_end ending,
    List.append_nil, List.reverse_reverse]

/-- A text without line ends is one line, unless it is empty. -/
theorem lines_unbroken (unbroken : ∀ c ∈ s, isLineEnd c = false) :
    lines s = if s = [] then [] else [s] := by
  have whole := linesAfter_append unbroken [] []
  rw [List.append_nil, List.append_nil] at whole
  rw [lines, whole, linesAfter]
  by_cases empty : s = [] <;> simp [empty]

def ofLines (ls : List (List Char)) : String := String.ofList (ls.flatMap (· ++ ['\n']))

theorem lines_ofLines {ls : List (List Char)} (unbroken : ∀ l ∈ ls, ∀ c ∈ l, isLineEnd c = false) :
    lines (ofLines ls).toList = ls := by
  rw [ofLines, String.toList_ofList]
  induction ls with
  | nil => rfl
  | cons l ls ih =>
    obtain ⟨first, others⟩ := List.forall_mem_cons.mp unbroken
    rw [List.flatMap_cons, lines_end first (.single '\n' rfl (by decide)), ih others]

end RubyIndex.Text
