import Mathlib.Data.List.Nodup
import RubyIndex.SymbolTable.Lookup

/-! Lists in which the first item of each key stays, and lists of names to which only new names are
added. -/
namespace RubyIndex

section Keys

variable {α : Type} {key : α → String}

theorem mem_keepFirst_iff {l : List α} {a : α} : a ∈ keepFirst key l ↔
    ∃ before after, l = before ++ a :: after ∧ ∀ b ∈ before, key b ≠ key a := by
  induction l with
  | nil => simp [keepFirst]
  | cons c rest ih =>
    rw [keepFirst, List.mem_cons, List.mem_filter, ih]
    constructor
    · rintro (rfl | ⟨⟨before, after, rfl, hb⟩, hc⟩)
      · exact ⟨[], rest, rfl, by simp⟩
      · refine ⟨c :: before, after, rfl, fun b hm => ?_⟩
        rcases List.mem_cons.mp hm with rfl | hm
        · exact fun he => by simp [he] at hc
        · exact hb b hm
    · rintro ⟨before, after, eq, hb⟩
      rcases List.cons_eq_append_iff.mp eq with ⟨rfl, he⟩ | ⟨before, rfl, rfl⟩
      · exact Or.inl (List.cons.inj he).1
      · refine Or.inr ⟨⟨before, after, rfl, fun b hm => hb b (List.mem_cons_of_mem _ hm)⟩, ?_⟩
        simpa using (hb c List.mem_cons_self).symm

theorem mem_keepFirst_iff_find? {l : List α} {a : α} : a ∈ keepFirst key l ↔
    l.find? (key · == key a) = some a := by
  simp [mem_keepFirst_iff, List.find?_eq_some_iff_append]

theorem exists_mem_keepFirst {l : List α} {a : α} (h : a ∈ l) :
    ∃ b ∈ keepFirst key l, key b = key a := by
  induction l with
  | nil => simp at h
  | cons c rest ih =>
    by_cases hc : key c = key a
    · exact ⟨c, List.mem_cons_self, hc⟩
    · have ha : a ∈ rest := List.mem_of_ne_of_mem (fun he => hc (by rw [he])) h
      obtain ⟨b, hb, hk⟩ := ih ha
      refine ⟨b, List.mem_cons_of_mem _ (List.mem_filter.mpr ⟨hb, ?_⟩), hk⟩
      simpa [hk] using Ne.symm hc

theorem mem_map_keepFirst {l : List α} {k : String} :
    k ∈ (keepFirst key l).map key ↔ k ∈ l.map key := by
  simp only [List.mem_map]
  constructor
  · rintro ⟨a, ha, rfl⟩
    exact ⟨a, mem_of_mem_keepFirst ha, rfl⟩
  · rintro ⟨a, ha, rfl⟩
    exact exists_mem_keepFirst ha

theorem nodup_map_keepFirst (key : α → String) (l : List α) :
    ((keepFirst key l).map key).Nodup := by
  induction l with
  | nil => exact List.nodup_nil
  | cons a rest ih =>
    rw [keepFirst, List.map_cons, List.nodup_cons]
    refine ⟨fun h => ?_, ih.sublist (List.filter_sublist.map key)⟩
    obtain ⟨b, hb, he⟩ := List.mem_map.mp h
    simpa [he] using (List.mem_filter.mp hb).2

theorem keepFirst_filter {p : α → Bool} (hp : ∀ a b, key a = key b → p a = p b) (l : List α) :
    keepFirst key (l.filter p) = (keepFirst key l).filter p := by
  induction l with
  | nil => rfl
  | cons a rest ih =>
    by_cases ha : p a = true
    · rw [List.filter_cons_of_pos ha, keepFirst, keepFirst, List.filter_cons_of_pos ha, ih,
        List.filter_filter, List.filter_filter]
      simp only [Bool.and_comm]
    · rw [List.filter_cons_of_neg ha, keepFirst, List.filter_cons_of_neg ha, ih,
        List.filter_filter]
      refine List.filter_congr fun b _ => ?_
      by_cases hb : key b = key a
      · simp [hp b a hb, ha]
      · simp [hb]

theorem keepFirst_append (first second : List α) :
    keepFirst key (first ++ second) =
      keepFirst key first ++ (keepFirst key second).filter (key · ∉ first.map key) := by
  induction first with
  | nil => simp [keepFirst]
  | cons a first ih =>
    rw [List.cons_append, keepFirst, keepFirst, ih, List.filter_append, List.filter_filter]
    simp only [List.cons_append, List.map_cons, List.mem_cons]
    refine congrArg (a :: _ ++ ·) (List.filter_congr fun b _ => ?_)
    by_cases hb : key b = key a <;> simp [hb]

theorem keepFirst_concat (l : List α) (a : α) :
    keepFirst key (l ++ [a]) =
      if key a ∈ l.map key then keepFirst key l else keepFirst key l ++ [a] := by
  rw [keepFirst_append]
  by_cases h : key a ∈ l.map key
  · rw [if_pos h]
    simpa [keepFirst] using List.mem_map.mp h
  · rw [if_neg h]
    simpa [keepFirst] using h

end Keys

section Names

variable {listed rest : List String}

theorem mem_keepFirst_id {x : String} : x ∈ keepFirst id rest ↔ x ∈ rest := by
  have h : x ∈ (keepFirst id rest).map id ↔ x ∈ rest.map id := mem_map_keepFirst
  simpa using h

theorem filter_keepFirst_cons {x : String} (fresh : x ∉ listed) :
    (keepFirst id (x :: rest)).filter (· ∉ listed) =
      x :: (keepFirst id rest).filter (· ∉ x :: listed) := by
  rw [keepFirst, List.filter_cons_of_pos (by simpa using fresh), List.filter_filter]
  refine congrArg (x :: ·) (List.filter_congr fun y _ => ?_)
  by_cases hy : y = x <;> simp [hy]

theorem filter_keepFirst_append {old : List String} (h : ∀ x ∈ old, x ∈ listed) :
    (keepFirst id (old ++ rest)).filter (· ∉ listed) =
      (keepFirst id rest).filter (· ∉ listed) := by
  have none : (keepFirst id old).filter (· ∉ listed) = [] :=
    List.filter_eq_nil_iff.mpr fun x hx => by simpa using h x (mem_keepFirst_id.mp hx)
  rw [keepFirst_append, List.filter_append, none, List.nil_append, List.filter_filter]
  refine List.filter_congr fun y _ => ?_
  by_cases hy : y ∈ old
  · simp [h y hy]
  · simp [hy]

theorem addNew_eq (names more : List String) :
    addNew names more = names ++ keepFirst id (more.filter (· ∉ names)) := by
  induction more generalizing names with
  | nil => simp [keepFirst]
  | cons x more ih =>
    rw [addNew, List.foldl_cons, ← addNew]
    by_cases hx : x ∈ names
    · rw [if_pos (by simpa using hx), ih, List.filter_cons_of_neg (by simpa using hx)]
    · rw [if_neg (by simpa using hx), ih, List.filter_cons_of_pos (by simpa using hx), keepFirst,
        List.append_assoc, List.singleton_append, ← keepFirst_filter (by rintro _ _ rfl; rfl),
        List.filter_filter]
      refine congrArg (names ++ x :: keepFirst id ·) (List.filter_congr fun y _ => ?_)
      by_cases hy : y = x <;> simp [hy]

end Names

end RubyIndex
