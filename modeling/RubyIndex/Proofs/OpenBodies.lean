import RubyIndex.Parameter.Parse
import RubyIndex.Proofs.StatementForms
import RubyIndex.StubFile
import RubyIndex.Text.Lines

/-! The lines of a text that open and close bodies, counted. The bodies that are left open after
some lines are those of the opening lines after which everything that is opened is closed. -/
namespace RubyIndex

structure CodeLine where
  source : List Char
  number : Nat
  deriving DecidableEq, Repr

def codeLine? (numbered : List Char × Nat) : Option CodeLine :=
  let source := Text.trim numbered.1
  if source = [] ∨ source.head? = some '#' then none else some ⟨source, numbered.2⟩

def codeLines (text : String) : List CodeLine :=
  ((Text.lines text.toList).zipIdx 1).filterMap codeLine?

namespace CodeLine

def closes (l : CodeLine) : Bool := Statement.isClose l.source

/-- Whether a line opens a body and does not close it at once by `; end`. -/
def opens (l : CodeLine) : Bool :=
  Statement.isOpenSingleton l.source || (Statement.header? l.source).any (!·.closed)

theorem not_opens_of_closes {l : CodeLine} (h : l.closes = true) : l.opens = false := by
  have statement := Statement.read_eq_close_iff.mpr h
  have singleton : ¬Statement.isOpenSingleton l.source = true := fun o =>
    nomatch statement.symm.trans (Statement.read_eq_openSingleton_iff.mpr o)
  have header : Statement.header? l.source = none := by
    rw [Option.eq_none_iff_forall_ne_some]
    intro header form
    exact nomatch statement.symm.trans (Statement.read_eq_openNamespace_iff.mpr form)
  simp [opens, singleton, header]

def openings (ls : List CodeLine) : Nat := ls.countP (·.opens)

def closings (ls : List CodeLine) : Nat := ls.countP (·.closes)

theorem openings_append (first second : List CodeLine) :
    openings (first ++ second) = openings first + openings second := List.countP_append ..

theorem closings_append (first second : List CodeLine) :
    closings (first ++ second) = closings first + closings second := List.countP_append ..

@[simp] theorem openings_nil : openings [] = 0 := rfl

@[simp] theorem closings_nil : closings [] = 0 := rfl

theorem openings_cons (l : CodeLine) (ls : List CodeLine) :
    openings (l :: ls) = (if l.opens then 1 else 0) + openings ls := by
  rw [openings, List.countP_cons, Nat.add_comm]
  rfl

theorem closings_cons (l : CodeLine) (ls : List CodeLine) :
    closings (l :: ls) = (if l.closes then 1 else 0) + closings ls := by
  rw [closings, List.countP_cons, Nat.add_comm]
  rfl

theorem closes_of_opens {l : CodeLine} (h : l.opens = true) : l.closes = false := by
  by_contra c
  have := not_opens_of_closes (eq_true_of_ne_false c)
  simp [h] at this

structure Matched (ls : List CodeLine) : Prop where
  closed : closings ls = openings ls
  within : ∀ first rest, ls = first ++ rest → closings first ≤ openings first

theorem matched_nil : Matched [] := by
  refine ⟨rfl, ?_⟩
  intro first rest eq
  rw [(List.append_eq_nil_iff.mp eq.symm).1]
  exact Nat.le_refl _

theorem Matched.append {first second : List CodeLine} (h : Matched first) (k : Matched second) :
    Matched (first ++ second) := by
  have balanced := h.closed
  refine ⟨by rw [openings_append, closings_append, balanced, k.closed], ?_⟩
  intro part rest eq
  rcases List.append_eq_append_iff.mp eq with ⟨more, rfl, split⟩ | ⟨more, split, -⟩
  · have := k.within more rest split
    rw [openings_append, closings_append]
    omega
  · exact h.within part more split

theorem matched_plain {l : CodeLine} (opens : l.opens = false) (closes : l.closes = false) :
    Matched [l] := by
  refine ⟨by simp [openings_cons, closings_cons, opens, closes], ?_⟩
  intro part rest eq
  rcases List.cons_eq_append_iff.mp eq with ⟨rfl, -⟩ | ⟨more, rfl, split⟩
  · exact Nat.le_refl _
  · rw [(List.append_eq_nil_iff.mp split.symm).1]
    simp [openings_cons, closings_cons, opens, closes]

/-- A body with its first line and its `end`. -/
theorem Matched.enclose {first last : CodeLine} {inside : List CodeLine} (h : Matched inside)
    (opens : first.opens = true) (closes : last.closes = true) :
    Matched (first :: inside ++ [last]) := by
  have inert := not_opens_of_closes closes
  have silent := closes_of_opens opens
  have balanced := h.closed
  refine ⟨?_, ?_⟩
  · simp [openings_cons, closings_cons, openings_append, closings_append, opens, closes, inert,
      silent, balanced, Nat.add_comm]
  · intro part rest eq
    rcases List.cons_eq_append_iff.mp eq with ⟨rfl, -⟩ | ⟨more, rfl, split⟩
    · exact Nat.le_refl _
    · -- The first line is one more opening than the lines inside have, and only `last` uses it.
      have counted : closings more ≤ openings more + 1 := by
        rcases List.append_eq_append_iff.mp split with ⟨tail, rfl, ends⟩ | ⟨tail, eq, -⟩
        · have length : tail.length ≤ 1 := by
            have := congrArg List.length ends
            simp at this
            omega
          have single : closings tail ≤ tail.length := List.countP_le_length
          rw [openings_append, closings_append]
          omega
        · have := h.within more tail eq
          omega
      simp only [openings_cons, closings_cons, opens, silent, if_true, Bool.false_eq_true,
        if_false]
      omega

/-- What lines leave open: the numbers of the lines whose bodies are not closed, innermost first. -/
inductive LeftOpen : List CodeLine → List Nat → Prop
  | matched {ls : List CodeLine} (h : Matched ls) : LeftOpen ls []
  | body {before after : List CodeLine} {l : CodeLine} {outer : List Nat}
      (around : LeftOpen before outer) (opens : l.opens = true) (inside : Matched after) :
      LeftOpen (before ++ l :: after) (l.number :: outer)

namespace LeftOpen

variable {ls more : List CodeLine} {l : CodeLine} {n : Nat} {left outer : List Nat}

theorem append (h : LeftOpen ls left) (matched : Matched more) : LeftOpen (ls ++ more) left := by
  cases h with
  | matched h => exact .matched (h.append matched)
  | body around opens inside =>
    rw [List.append_assoc, List.cons_append]
    exact .body around opens (inside.append matched)

theorem opened (h : LeftOpen ls left) (opens : l.opens = true) :
    LeftOpen (ls ++ [l]) (l.number :: left) := .body h opens matched_nil

theorem closed (h : LeftOpen ls (n :: outer)) (closes : l.closes = true) :
    LeftOpen (ls ++ [l]) outer := by
  cases h with
  | body around opens inside =>
    rw [List.append_assoc]
    exact around.append (inside.enclose opens closes)

theorem openings_eq (h : LeftOpen ls left) : openings ls = closings ls + left.length := by
  induction h with
  | matched h => simp [h.closed]
  | @body before after l outer around opens inside ih =>
    have silent := closes_of_opens opens
    have balanced := inside.closed
    rw [openings_append, closings_append, openings_cons, closings_cons, List.length_cons]
    simp only [opens, silent, if_true, Bool.false_eq_true, if_false]
    omega

theorem eq_nil_iff (h : LeftOpen ls left) : left = [] ↔ openings ls ≤ closings ls := by
  have := h.openings_eq
  rw [← List.length_eq_zero_iff]
  omega

end LeftOpen

end CodeLine

end RubyIndex
