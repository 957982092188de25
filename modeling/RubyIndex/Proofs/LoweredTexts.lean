import Mathlib.Data.List.Basic
import RubyIndex.Proofs.Identifiers
import RubyIndex.Proofs.Utf8Decoding
import RubyIndex.Text.Lowercase

/-! Texts in lower case. They are their own lower case. An underscore has no case and ends a word,
so that whether it is removed before or after the text is lowered is seen at capital sigmas alone.
-/
namespace RubyIndex.Text

def CaseRun.covers (r : CaseRun) (n : Nat) : Bool :=
  r.first ≤ n && n ≤ r.last && (n - r.first) % r.step == 0

def CaseRun.lowFirst (r : CaseRun) : Nat := (r.first + r.shift).toNat
def CaseRun.lowLast (r : CaseRun) : Nat := (r.last + r.shift).toNat

/-- Whether the small letters of a run are characters after the ASCII capitals, without the dotted
capital I and the capital sigma, which are lowered in their own way. -/
def CaseRun.proper (r : CaseRun) : Bool :=
  97 ≤ r.lowFirst && (r.lowLast < 0xD800 || (0xE000 ≤ r.lowFirst && r.lowLast < 0x110000)) &&
    (r.lowLast < 'İ'.toNat || 'İ'.toNat < r.lowFirst) &&
    (r.lowLast < 'Σ'.toNat || 'Σ'.toNat < r.lowFirst)

/-- Whether no small letter of a run is a capital of another one. Where small letters and capitals
alternate, one kind has even places only. -/
def CaseRun.apart (r q : CaseRun) : Bool :=
  Nat.blt r.lowLast q.first || Nat.blt q.last r.lowFirst ||
    (r.step == 2 && q.step == 2 && (r.lowFirst + q.first) % 2 == 1) ||
    (r.first == r.last && (r.lowFirst - q.first) % q.step != 0)

theorem proper_caseRuns : caseRuns.all CaseRun.proper = true := by decide +kernel

theorem apart_caseRuns : (caseRuns.all fun r => caseRuns.all r.apart) = true := by decide +kernel

variable {r q : CaseRun} {n : Nat} {c x : Char} {s : List Char}

theorem first_of_proper (h : r.proper = true) : 97 ≤ r.lowFirst := by
  simp only [CaseRun.proper, Bool.and_eq_true, decide_eq_true_eq] at h
  exact h.1.1.1

theorem low_of_covers (proper : r.proper = true) (covered : r.covers n = true) :
    (n + r.shift).toNat = r.lowFirst + (n - r.first) ∧
      r.lowFirst + (n - r.first) ≤ r.lowLast := by
  have start := first_of_proper proper
  simp only [CaseRun.covers, Bool.and_eq_true, decide_eq_true_eq] at covered
  simp only [CaseRun.lowFirst, CaseRun.lowLast] at start ⊢
  omega

theorem not_covers_of_apart (proper : r.proper = true) (apart : r.apart q = true)
    (covered : r.covers n = true) : ¬ q.covers (n + r.shift).toNat = true := by
  obtain ⟨low, last⟩ := low_of_covers proper covered
  rw [low]
  simp only [CaseRun.covers, Bool.and_eq_true, decide_eq_true_eq, beq_iff_eq] at covered ⊢
  simp only [CaseRun.apart, Bool.or_eq_true, Bool.and_eq_true, Nat.blt_eq, beq_iff_eq,
    bne_iff_ne] at apart
  rintro ⟨⟨above, below⟩, place⟩
  rcases apart with ((before | after) | ⟨⟨two, two'⟩, places⟩) | ⟨single, other⟩
  · omega
  · omega
  · rw [two] at covered
    rw [two'] at place
    omega
  · have first : n - r.first = 0 := by omega
    rw [first, Nat.add_zero] at place
    exact other place

theorem valid_of_covers (proper : r.proper = true) (covered : r.covers n = true) :
    97 ≤ (n + r.shift).toNat ∧ (n + r.shift).toNat.isValidChar ∧
      (n + r.shift).toNat ≠ 'İ'.toNat ∧ (n + r.shift).toNat ≠ 'Σ'.toNat := by
  obtain ⟨low, last⟩ := low_of_covers proper covered
  simp only [CaseRun.proper, Bool.and_eq_true, Bool.or_eq_true, decide_eq_true_eq] at proper
  rw [low, Nat.isValidChar]
  omega

structure Small (c : Char) : Prop where
  other : c ≠ 'Σ'
  fixed : lowerChar c = [c]

theorem lowerChar_ascii (ascii : c.toNat < 128) : lowerChar c = [c.toLower] := by
  rw [lowerChar, if_pos ascii]

theorem toNat_toLower (c : Char) :
    c.toLower.toNat = if 65 ≤ c.toNat ∧ c.toNat ≤ 90 then c.toNat + 32 else c.toNat := by
  have range : (c.val ≥ 'A'.val ∧ c.val ≤ 'Z'.val) ↔ 65 ≤ c.toNat ∧ c.toNat ≤ 90 := by
    rw [ge_iff_le, UInt32.le_iff_toNat_le, UInt32.le_iff_toNat_le]
    rfl
  unfold Char.toLower
  split
  · next capital =>
    have upper := range.mp capital
    have sum : (c.val + ('a'.val - 'A'.val)).toNat = (c.toNat + 32) % 2 ^ 32 := UInt32.toNat_add ..
    rw [if_pos upper, Char.toNat, sum]
    omega
  · next other => rw [if_neg (range.not.mp other)]

/-- In the ASCII range all but the capitals stay as they are. -/
theorem small_of_ascii (ascii : c.toNat < 128) (h : ¬ (65 ≤ c.toNat ∧ c.toNat ≤ 90)) :
    Small c where
  other := by
    rintro rfl
    exact absurd ascii (by decide)
  fixed := by
    have same : c.toLower = c := Char.toNat_inj.mp ((toNat_toLower c).trans (if_neg h))
    rw [lowerChar_ascii ascii, same]

/-- A character above the ASCII range has the lower case that its run gives it. -/
theorem lowerChar_cases (above : 128 ≤ c.toNat) (plain : c ≠ 'İ') :
    (∃ r ∈ caseRuns, r.covers c.toNat = true ∧
      lowerChar c = [Char.ofNat (c.toNat + r.shift).toNat]) ∨
    ((∀ r ∈ caseRuns, ¬ r.covers c.toNat = true) ∧ lowerChar c = [c]) := by
  rw [lowerChar, if_neg (by omega), if_neg plain]
  split
  · next r found =>
    have covered : r.covers c.toNat = true :=
      List.find?_some (p := fun r : CaseRun => r.covers c.toNat) found
    exact .inl ⟨r, List.mem_of_find?_eq_some found, covered, rfl⟩
  · next none => exact .inr ⟨List.find?_eq_none.mp none, rfl⟩

theorem small_of_not_covered (above : 128 ≤ c.toNat) (plain : c ≠ 'İ') (other : c ≠ 'Σ')
    (free : ∀ r ∈ caseRuns, ¬ r.covers c.toNat = true) : Small c := by
  rcases lowerChar_cases above plain with ⟨r, listed, covered, -⟩ | ⟨-, fixed⟩
  · exact absurd covered (free r listed)
  · exact ⟨other, fixed⟩

/-- Small letters have no lower case of their own. -/
theorem small_of_covers (listed : r ∈ caseRuns) (covered : r.covers n = true) :
    Small (Char.ofNat (n + r.shift).toNat) := by
  have proper := List.all_eq_true.mp proper_caseRuns r listed
  obtain ⟨after, valid, plain, other⟩ := valid_of_covers proper covered
  have code := Utf8.toNat_ofNat_of_isValidChar valid
  rcases Nat.lt_or_ge (n + r.shift).toNat 128 with ascii | above
  · refine small_of_ascii (by rwa [code]) ?_
    rw [code]
    omega
  · refine small_of_not_covered (by rwa [code]) ?_ ?_ ?_
    · exact fun same => plain (by rw [← code, same])
    · exact fun same => other (by rw [← code, same])
    · intro q hq
      rw [code]
      have apart := List.all_eq_true.mp (List.all_eq_true.mp apart_caseRuns r listed) q hq
      exact not_covers_of_apart proper apart covered

/-- The four ways to get into the lower case of a character. -/
theorem mem_lowerChar_cases (h : x ∈ lowerChar c) :
    (c.toNat < 128 ∧ x = c.toLower) ∨ (c = 'İ' ∧ (x = 'i' ∨ x = '\u0307')) ∨
      (∃ r ∈ caseRuns, r.covers c.toNat = true ∧ x = Char.ofNat (c.toNat + r.shift).toNat) ∨
      (x = c ∧ lowerChar c = [c]) := by
  rcases Nat.lt_or_ge c.toNat 128 with ascii | above
  · rw [lowerChar_ascii ascii, List.mem_singleton] at h
    exact .inl ⟨ascii, h⟩
  · by_cases plain : c = 'İ'
    · subst plain
      have letters : lowerChar 'İ' = ['i', '\u0307'] := by decide
      rw [letters, List.mem_cons, List.mem_singleton] at h
      exact .inr (.inl ⟨rfl, h⟩)
    · rcases lowerChar_cases above plain with ⟨r, listed, covered, low⟩ | ⟨-, fixed⟩
      · rw [low, List.mem_singleton] at h
        exact .inr (.inr (.inl ⟨r, listed, covered, h⟩))
      · have same := fixed ▸ h
        rw [List.mem_singleton] at same
        exact .inr (.inr (.inr ⟨same, fixed⟩))

theorem small_of_mem_lowerChar (other : c ≠ 'Σ') (h : x ∈ lowerChar c) : Small x := by
  rcases mem_lowerChar_cases h with
    ⟨ascii, rfl⟩ | ⟨-, rfl | rfl⟩ | ⟨r, listed, covered, rfl⟩ | ⟨rfl, fixed⟩
  · have code := toNat_toLower c
    refine small_of_ascii ?_ ?_ <;> split at code <;> omega
  · exact ⟨by decide, by decide⟩
  · exact ⟨by decide, by decide +kernel⟩
  · exact small_of_covers listed covered
  · exact ⟨other, fixed⟩

theorem eq_underscore_of_mem_lowerChar (h : '_' ∈ lowerChar c) : c = '_' := by
  have mark : '_'.toNat = 95 := rfl
  rcases mem_lowerChar_cases h with
    ⟨-, same⟩ | ⟨-, same | same⟩ | ⟨r, listed, covered, same⟩ | ⟨same, -⟩
  · have code := congrArg Char.toNat same
    rw [toNat_toLower] at code
    split at code
    · omega
    · exact (Char.toNat_inj.mp code).symm
  · exact absurd same (by decide)
  · exact absurd same (by decide)
  · have proper := List.all_eq_true.mp proper_caseRuns r listed
    obtain ⟨after, valid, -⟩ := valid_of_covers proper covered
    have code := congrArg Char.toNat same
    rw [Utf8.toNat_ofNat_of_isValidChar valid] at code
    omega
  · exact same.symm

section Lower

variable {before others rest : List Char}

theorem lowerAfter_cons_of_ne (other : c ≠ 'Σ') (before s : List Char) :
    lowerAfter before (c :: s) = lowerChar c ++ lowerAfter (c :: before) s := by
  rw [lowerAfter, if_neg other]

theorem lowerAfter_of_small (h : ∀ c ∈ s, Small c) : lowerAfter before s = s := by
  induction s generalizing before with
  | nil => rfl
  | cons c s ih =>
    obtain ⟨first, later⟩ := List.forall_mem_cons.mp h
    rw [lowerAfter_cons_of_ne first.other, first.fixed, ih later, List.singleton_append]

theorem small_of_mem_lowerAfter (h : c ∈ lowerAfter before s) : Small c := by
  induction s generalizing before with
  | nil => cases h
  | cons d s ih =>
    rw [lowerAfter, List.mem_append] at h
    rcases h with h | h
    · split at h
      · rw [List.mem_singleton] at h
        split at h
        · exact h ▸ ⟨by decide, by decide +kernel⟩
        · exact h ▸ ⟨by decide, by decide +kernel⟩
      · next other => exact small_of_mem_lowerChar other h
    · exact ih h

/-- What is left of a text in lower case when underscores are removed is in lower case. -/
theorem lower_filter_lower (p : Char → Bool) (s : List Char) :
    lower ((lower s).filter p) = (lower s).filter p :=
  lowerAfter_of_small fun _ hc => small_of_mem_lowerAfter (List.mem_of_mem_filter hc)

def casedFirst (s : List Char) : Bool := (s.dropWhile isPassedOver).head?.any isCased

theorem endsWord_eq (before rest : List Char) :
    endsWord before rest = (casedFirst before && !casedFirst rest) := rfl

theorem casedFirst_cons (c : Char) (s : List Char) :
    casedFirst (c :: s) = if isPassedOver c then casedFirst s else isCased c := by
  rw [casedFirst, List.dropWhile_cons]
  split
  · rfl
  · rfl

def dropUnderscores (s : List Char) : List Char := s.filter (· != '_')

theorem dropUnderscores_cons (c : Char) (s : List Char) :
    dropUnderscores (c :: s) = if c = '_' then dropUnderscores s else c :: dropUnderscores s := by
  rw [dropUnderscores, List.filter_cons]
  by_cases h : c = '_' <;> simp [h, dropUnderscores]

theorem dropUnderscores_lowerChar (other : c ≠ '_') :
    dropUnderscores (lowerChar c) = lowerChar c := by
  refine List.filter_eq_self.mpr fun x hx => ?_
  have apart : x ≠ '_' := by
    rintro rfl
    exact other (eq_underscore_of_mem_lowerChar hx)
  simpa using apart

/-- Whether a text has the same capital sigmas at the end of words as it has without underscores.
The text before it is given backwards. -/
def SigmasAgree (before s : List Char) : Prop := ∀ first rest, s = first ++ 'Σ' :: rest →
  endsWord (first.reverse ++ before) rest =
    endsWord (dropUnderscores (first.reverse ++ before)) (dropUnderscores rest)

theorem sigmasAgree_cons : SigmasAgree before (c :: s) ↔
    (c = 'Σ' → endsWord before s = endsWord (dropUnderscores before) (dropUnderscores s)) ∧
      SigmasAgree (c :: before) s := by
  constructor
  · intro h
    constructor
    · rintro rfl
      exact h [] s rfl
    · intro first rest cut
      have later := h (c :: first) rest (by rw [cut, List.cons_append])
      rwa [List.reverse_cons, List.append_assoc, List.singleton_append] at later
  · rintro ⟨here, later⟩ first rest cut
    cases first with
    | nil =>
      obtain ⟨rfl, rfl⟩ := List.cons.inj cut
      exact here rfl
    | cons d first =>
      obtain ⟨rfl, tail⟩ := List.cons.inj cut
      rw [List.reverse_cons, List.append_assoc, List.singleton_append]
      exact later first rest tail

theorem dropUnderscores_append (s t : List Char) :
    dropUnderscores (s ++ t) = dropUnderscores s ++ dropUnderscores t := List.filter_append ..

theorem dropUnderscores_sigma (final : Bool) :
    dropUnderscores [if final then 'ς' else 'σ'] = [if final then 'ς' else 'σ'] := by
  cases final <;> rfl

theorem lowerSigma_inj {a b : Bool} :
    (if a then 'ς' else 'σ') = (if b then 'ς' else 'σ') ↔ a = b := by
  cases a <;> cases b <;> decide

/-- Underscores may be removed before a text is lowered instead of after it exactly if that changes
no sigma. -/
theorem dropUnderscores_lowerAfter_eq_iff (before s : List Char) :
    dropUnderscores (lowerAfter before s) =
        lowerAfter (dropUnderscores before) (dropUnderscores s) ↔ SigmasAgree before s := by
  induction s generalizing before with
  | nil => exact iff_of_true rfl fun first rest cut => by simp at cut
  | cons c s ih =>
    rw [sigmasAgree_cons, ← ih, lowerAfter, dropUnderscores_append, dropUnderscores_cons c s,
      dropUnderscores_cons c before]
    by_cases underscore : c = '_'
    · subst underscore
      have mark : dropUnderscores (lowerChar '_') = [] := by decide
      rw [if_neg (by decide), mark, if_pos rfl, if_pos rfl, List.nil_append]
      exact (and_iff_right (fun sigma => absurd sigma (by decide))).symm
    · rw [if_neg underscore, if_neg underscore, lowerAfter]
      by_cases sigma : c = 'Σ'
      · rw [if_pos sigma, if_pos sigma, dropUnderscores_sigma, List.singleton_append,
          List.singleton_append, List.cons.injEq, lowerSigma_inj, forall_prop_of_true sigma]
      · rw [if_neg sigma, if_neg sigma, dropUnderscores_lowerChar underscore,
          List.append_cancel_left_eq, and_iff_right (fun same => absurd same sigma)]

end Lower

end RubyIndex.Text
