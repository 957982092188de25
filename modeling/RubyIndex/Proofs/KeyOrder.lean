import RubyIndex.Proofs.FirstOccurrences
import RubyIndex.Proofs.StableSorting

/-! Lists that have the items of each key in the same order. They may mix the keys differently, and
still cannot be told apart by looking up a key or by sorting. -/
namespace RubyIndex

variable {α : Type} {key : α → String} {l₁ l₂ : List α}

/-- Whether two lists have the items of each key in the same order. -/
def SameByKey (key : α → String) (l₁ l₂ : List α) : Prop :=
  ∀ k, l₁.filter (key · == k) = l₂.filter (key · == k)

namespace SameByKey

theorem find?_eq (h : SameByKey key l₁ l₂) (k : String) :
    l₁.find? (key · == k) = l₂.find? (key · == k) := by
  rw [← List.head?_filter, ← List.head?_filter, h k]

theorem perm [DecidableEq α] (h : SameByKey key l₁ l₂) : l₁.Perm l₂ := by
  rw [List.perm_iff_count]
  intro a
  have own (l : List α) : l.count a = (l.filter (key · == key a)).count a :=
    (List.count_filter (by simp)).symm
  rw [own l₁, own l₂, h (key a)]

theorem sortOn_eq (h : SameByKey key l₁ l₂) : sortOn key l₁ = sortOn key l₂ := by
  apply eq_of_filter_tied_eq (key_le_total key)
  · exact List.pairwise_mergeSort (key_le_trans key) (key_le_total key) l₁
  · exact List.pairwise_mergeSort (key_le_trans key) (key_le_total key) l₂
  · intro a
    rw [sortOn, sortOn, filter_tied_mergeSort (key_le_trans key) (key_le_total key),
      filter_tied_mergeSort (key_le_trans key) (key_le_total key), tied_key_eq, h (key a)]

theorem keepFirst (h : SameByKey key l₁ l₂) :
    SameByKey key (keepFirst key l₁) (RubyIndex.keepFirst key l₂) := by
  have whole (k : String) (a b : α) (same : key a = key b) : (key a == k) = (key b == k) := by
    rw [same]
  intro k
  rw [← keepFirst_filter (whole k), ← keepFirst_filter (whole k), h k]

/-- Two parts of a list change places if they have no key in common. -/
theorem swap {before after : List α} (apart : ∀ a ∈ l₁, ∀ b ∈ l₂, key a ≠ key b) :
    SameByKey key (before ++ (l₁ ++ (l₂ ++ after))) (before ++ (l₂ ++ (l₁ ++ after))) := by
  intro k
  simp only [List.filter_append]
  by_cases first : ∃ a ∈ l₁, key a = k
  · obtain ⟨a, ha, rfl⟩ := first
    have none : l₂.filter (key · == key a) = [] :=
      List.filter_eq_nil_iff.mpr fun b hb => by simpa using (apart a ha b hb).symm
    rw [none, List.nil_append, List.nil_append]
  · have none : l₁.filter (key · == k) = [] :=
      List.filter_eq_nil_iff.mpr fun a ha same => first ⟨a, ha, by simpa using same⟩
    rw [none, List.nil_append, List.nil_append]

end SameByKey

/-- In a list of distinct keys what has a key is what a search for it finds. -/
theorem filter_key_eq_toList_find? (distinct : (l₁.map key).Nodup) (k : String) :
    l₁.filter (key · == k) = (l₁.find? (key · == k)).toList := by
  induction l₁ with
  | nil => rfl
  | cons a rest ih =>
    rw [List.map_cons, List.nodup_cons] at distinct
    by_cases same : key a = k
    · have none : rest.filter (key · == k) = [] := by
        refine List.filter_eq_nil_iff.mpr fun b hb again => ?_
        have again : key b = k := by simpa using again
        exact distinct.1 (List.mem_map.mpr ⟨b, hb, again.trans same.symm⟩)
      rw [List.filter_cons_of_pos (by simpa using same), none,
        List.find?_cons_of_pos (by simpa using same)]
      rfl
    · rw [List.filter_cons_of_neg (by simpa using same), ih distinct.2,
        List.find?_cons_of_neg (by simpa using same)]

end RubyIndex
