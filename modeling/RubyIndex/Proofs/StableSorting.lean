import Mathlib.Data.List.Basic
import RubyIndex.SymbolTable.Lookup

/-! Stable sorting by an order in which different items may be equivalent. A sorted list is known
from its items and from the order of each class of equivalent ones, and so leaving items out and
sorting may change places. -/
namespace RubyIndex

variable {α : Type} {le : α → α → Bool}

def tied (le : α → α → Bool) (a b : α) : Bool := le a b && le b a

theorem tied_iff {a b : α} : tied le a b = true ↔ le a b = true ∧ le b a = true := by
  simp [tied]

theorem tied_self (total : ∀ a b, (le a b || le b a) = true) (a : α) : tied le a a = true := by
  simpa [tied] using total a a

/-- Sorting keeps the order of equivalent items. -/
theorem filter_tied_mergeSort (trans : ∀ a b c, le a b = true → le b c = true → le a c = true)
    (total : ∀ a b, (le a b || le b a) = true) (a : α) (l : List α) :
    (l.mergeSort le).filter (tied le a) = l.filter (tied le a) := by
  have sorted : (l.filter (tied le a)).Pairwise (le · · = true) := by
    rw [List.pairwise_filter]
    refine List.pairwise_of_forall fun b c hb hc => ?_
    exact trans b a c (tied_iff.mp hb).2 (tied_iff.mp hc).1
  have kept : (l.filter (tied le a)).Sublist (l.mergeSort le) :=
    List.sublist_mergeSort trans total sorted List.filter_sublist
  have inside : (l.filter (tied le a)).Sublist ((l.mergeSort le).filter (tied le a)) := by
    simpa [List.filter_filter] using kept.filter (tied le a)
  refine (inside.eq_of_length ?_).symm
  exact ((List.mergeSort_perm l le).filter _).length_eq.symm

theorem mem_of_filter_tied_eq {l₁ l₂ : List α} (total : ∀ a b, (le a b || le b a) = true) {a : α}
    (same : l₁.filter (tied le a) = l₂.filter (tied le a)) (h : a ∈ l₁) : a ∈ l₂ := by
  have listed : a ∈ l₁.filter (tied le a) := List.mem_filter.mpr ⟨h, tied_self total a⟩
  rw [same] at listed
  exact (List.mem_filter.mp listed).1

/-- Two sorted lists are the same if they have each class of equivalent items in the same order. -/
theorem eq_of_filter_tied_eq (total : ∀ a b, (le a b || le b a) = true) {l₁ l₂ : List α}
    (h₁ : l₁.Pairwise (le · · = true)) (h₂ : l₂.Pairwise (le · · = true))
    (same : ∀ a, l₁.filter (tied le a) = l₂.filter (tied le a)) : l₁ = l₂ := by
  induction l₁ generalizing l₂ with
  | nil =>
    cases l₂ with
    | nil => rfl
    | cons b rest =>
      exact absurd (mem_of_filter_tied_eq total (same b).symm List.mem_cons_self) List.not_mem_nil
  | cons a rest ih =>
    cases l₂ with
    | nil => exact absurd (mem_of_filter_tied_eq total (same a) List.mem_cons_self) List.not_mem_nil
    | cons b more =>
      rw [List.pairwise_cons] at h₁ h₂
      have refl (x : α) : le x x = true := by simpa using total x x
      have first : le a b = true := by
        rcases List.mem_cons.mp (mem_of_filter_tied_eq total (same b).symm List.mem_cons_self) with
          rfl | later
        · exact refl b
        · exact h₁.1 b later
      have second : le b a = true := by
        rcases List.mem_cons.mp (mem_of_filter_tied_eq total (same a) List.mem_cons_self) with
          rfl | later
        · exact refl a
        · exact h₂.1 a later
      have heads : a = b := by
        have eq := same a
        rw [List.filter_cons_of_pos (tied_self total a),
          List.filter_cons_of_pos (tied_iff.mpr ⟨first, second⟩)] at eq
        exact (List.cons.inj eq).1
      subst heads
      refine congrArg (a :: ·) (ih h₁.2 h₂.2 fun c => ?_)
      have eq := same c
      by_cases hc : tied le c a = true
      · rw [List.filter_cons_of_pos hc, List.filter_cons_of_pos hc] at eq
        exact (List.cons.inj eq).2
      · rw [List.filter_cons_of_neg hc, List.filter_cons_of_neg hc] at eq
        exact eq

/-- Leaving items out of a sorted list gives what sorting the others gives. -/
theorem filter_mergeSort (trans : ∀ a b c, le a b = true → le b c = true → le a c = true)
    (total : ∀ a b, (le a b || le b a) = true) (keep : α → Bool) (l : List α) :
    (l.mergeSort le).filter keep = (l.filter keep).mergeSort le := by
  apply eq_of_filter_tied_eq total
  · exact (List.pairwise_mergeSort trans total l).filter _
  · exact List.pairwise_mergeSort trans total _
  · intro a
    calc ((l.mergeSort le).filter keep).filter (tied le a)
      _ = ((l.mergeSort le).filter (tied le a)).filter keep := by
        simp only [List.filter_filter, Bool.and_comm]
      _ = (l.filter (tied le a)).filter keep := by rw [filter_tied_mergeSort trans total]
      _ = (l.filter keep).filter (tied le a) := by
        simp only [List.filter_filter, Bool.and_comm]
      _ = ((l.filter keep).mergeSort le).filter (tied le a) := by
        rw [filter_tied_mergeSort trans total]

section Keys

variable (key : α → String)

theorem key_le_trans (a b c : α) (hab : decide (key a ≤ key b) = true)
    (hbc : decide (key b ≤ key c) = true) : decide (key a ≤ key c) = true := by
  simp only [decide_eq_true_eq] at hab hbc ⊢
  exact String.le_trans hab hbc

theorem key_le_total (a b : α) : (decide (key a ≤ key b) || decide (key b ≤ key a)) = true := by
  simpa using String.le_total (key a) (key b)

theorem pairwise_sortOn (l : List α) : (sortOn key l).Pairwise (key · ≤ key ·) := by
  simpa only [sortOn, decide_eq_true_eq] using
    List.pairwise_mergeSort (key_le_trans key) (key_le_total key) l

/-- Items are equivalent to the order of their keys if they have the same key. -/
theorem tied_key_eq (a : α) :
    tied (fun a b => decide (key a ≤ key b)) a = fun b => key b == key a := by
  funext b
  rw [Bool.eq_iff_iff, tied_iff, beq_iff_eq]
  simp only [decide_eq_true_eq]
  constructor
  · rintro ⟨le, ge⟩
    exact String.le_antisymm ge le
  · intro same
    rw [same]
    exact ⟨String.le_refl _, String.le_refl _⟩

end Keys

end RubyIndex
