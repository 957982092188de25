import RubyIndex.Lint.Check
import RubyIndex.Proofs.HeaderNames
import RubyIndex.Proofs.LoweredTexts

/-! File names that are suggested for classes and modules. The underscores that a suggestion puts
between words never change the lower case of a letter. Those that the name has itself do, where a
capital sigma stands before or after one. Such a name does not match the file name that is suggested
for it. -/
namespace RubyIndex

namespace Text

variable {s t before others : List Char} {a b c : Char}

theorem range_of_isCapital (h : isCapital c = true) : 65 ≤ c.toNat ∧ c.toNat ≤ 90 := by
  simp only [isCapital, Bool.and_eq_true, decide_eq_true_eq, Char.le_def,
    UInt32.le_iff_toNat_le] at h
  exact h

theorem range_of_isSmall (h : Lint.isSmall c = true) : 97 ≤ c.toNat ∧ c.toNat ≤ 122 := by
  simp only [Lint.isSmall, Bool.and_eq_true, decide_eq_true_eq, Char.le_def,
    UInt32.le_iff_toNat_le] at h
  exact h

theorem isDigit_cases (h : isDigit c = true) : (48 ≤ c.toNat ∧ c.toNat ≤ 57) ∨
    128 ≤ c.toNat ∧ ∃ z ∈ digitZeros, z ≤ c.toNat ∧ c.toNat ≤ z + 9 := by
  unfold isDigit digitValue? at h
  dsimp only at h
  split at h
  · by_cases range : 48 ≤ c.toNat ∧ c.toNat ≤ 57
    · exact .inl range
    · simp [range] at h
  · next above =>
    rw [Option.isSome_map, List.find?_isSome] at h
    obtain ⟨z, listed, range⟩ := h
    rw [Bool.and_eq_true, decide_eq_true_eq, decide_eq_true_eq] at range
    exact .inr ⟨by omega, z, listed, range⟩

def endsPart (c : Char) : Bool := isCapital c || Lint.isSmall c || isDigit c

theorem digits_not_passedOver : (digitZeros.all fun z =>
    passedOverRanges.all fun r => Nat.blt (z + 9) r.1 || Nat.blt r.2 z) = true := by
  decide +kernel

/-- The search for the end of a word stops at letters of the ASCII range and at digits. -/
theorem not_passedOver_of_endsPart (h : endsPart c = true) : isPassedOver c = false := by
  rw [endsPart, Bool.or_eq_true, Bool.or_eq_true] at h
  unfold isPassedOver
  rw [← Bool.not_eq_true]
  intro passed
  split at passed
  · next ascii =>
    have alphanumeric : (65 ≤ c.toNat ∧ c.toNat ≤ 90 ∨ 97 ≤ c.toNat ∧ c.toNat ≤ 122) ∨
        48 ≤ c.toNat ∧ c.toNat ≤ 57 := by
      rcases h with (capital | small) | digit
      · exact .inl (.inl (range_of_isCapital capital))
      · exact .inl (.inr (range_of_isSmall small))
      · rcases isDigit_cases digit with range | ⟨above, -⟩
        · exact .inr range
        · omega
    simp only [List.contains_eq_mem, decide_eq_true_eq, List.mem_cons, List.not_mem_nil,
      or_false] at passed
    rcases passed with rfl | rfl | rfl | rfl | rfl <;> exact absurd alphanumeric (by decide)
  · next other =>
    obtain ⟨r, listed, low, high⟩ := inRanges_iff.mp passed
    rcases h with (capital | small) | digit
    · have range := range_of_isCapital capital
      omega
    · have range := range_of_isSmall small
      omega
    · rcases isDigit_cases digit with range | ⟨-, z, hz, first, last⟩
      · omega
      · have apart := List.all_eq_true.mp (List.all_eq_true.mp digits_not_passedOver z hz) r
          listed
        rw [Bool.or_eq_true, Nat.blt_eq, Nat.blt_eq] at apart
        omega

theorem ne_sigma_of_endsPart (h : endsPart c = true) : c ≠ 'Σ' := by
  rintro rfl
  exact absurd h (by decide)

/-- A text with some of the underscores that may be put before ASCII capitals. -/
inductive Parted : List Char → List Char → Prop where
  | nil : Parted [] []
  | keep (c : Char) {s t : List Char} : Parted s t → Parted (c :: s) (c :: t)
  | part {a b : Char} {s t : List Char} : endsPart a = true → isCapital b = true →
      Parted (b :: s) t → Parted (a :: b :: s) (a :: '_' :: t)

theorem parted_refl (s : List Char) : Parted s s := by
  induction s with
  | nil => exact .nil
  | cons c s ih => exact .keep c ih

theorem parted_cutAcronyms (s : List Char) : Parted s (Lint.cutAcronyms s) := by
  fun_induction Lint.cutAcronyms s with
  | case1 a b c rest h ih =>
    rw [Bool.and_eq_true, Bool.and_eq_true] at h
    exact .part (by simp [endsPart, h.1.1]) h.1.2 ih
  | case2 a b c rest h ih => exact .keep a ih
  | case3 s => exact parted_refl s

theorem parted_cutWords (s : List Char) : Parted s (Lint.cutWords s) := by
  fun_induction Lint.cutWords s with
  | case1 a b rest h ih =>
    rw [Bool.and_eq_true, Bool.or_eq_true] at h
    exact .part (by rw [endsPart, Bool.or_assoc, Bool.or_eq_true, Bool.or_eq_true]; exact .inr h.1)
      h.2 ih
  | case2 a b rest h ih => exact .keep a ih
  | case3 s => exact parted_refl s

/-- Where the search for the end of a word goes on, no underscore has been put. -/
theorem Parted.casedFirst_eq (h : Parted s t) : casedFirst t = casedFirst s := by
  induction h with
  | nil => rfl
  | keep c h ih => rw [casedFirst_cons, casedFirst_cons, ih]
  | @part a b s t ends capital h ih =>
    rw [casedFirst_cons a, casedFirst_cons a, not_passedOver_of_endsPart ends]
    rfl

/-- The underscores that are put into a text change no letter in lower case. Just behind one the
texts before a letter differ, but that letter is an ASCII capital and no sigma. -/
theorem Parted.dropUnderscores_lowerAfter (h : Parted s t)
    (agree : (∃ c rest, s = c :: rest ∧ isCapital c = true) ∨
      casedFirst others = casedFirst before) :
    dropUnderscores (lowerAfter others t) = dropUnderscores (lowerAfter before s) := by
  induction h generalizing before others with
  | nil => rfl
  | @keep c s t h ih =>
    have later : casedFirst (c :: others) = casedFirst (c :: before) := by
      rw [casedFirst_cons, casedFirst_cons]
      rcases agree with ⟨d, rest, same, capital⟩ | same
      · obtain ⟨rfl, -⟩ := List.cons.inj same
        rw [not_passedOver_of_endsPart (by rw [endsPart, capital]; rfl)]
        rfl
      · rw [same]
    rw [lowerAfter, lowerAfter, dropUnderscores_append, dropUnderscores_append, ih (.inr later)]
    by_cases sigma : c = 'Σ'
    · rcases agree with ⟨d, rest, same, capital⟩ | same
      · obtain ⟨rfl, -⟩ := List.cons.inj same
        exact absurd (sigma ▸ capital) (by decide)
      · rw [if_pos sigma, if_pos sigma, endsWord_eq, endsWord_eq, same, h.casedFirst_eq]
    · rw [if_neg sigma, if_neg sigma]
  | @part a b s t ends capital h ih =>
    have other := ne_sigma_of_endsPart ends
    have mark : dropUnderscores (lowerChar '_') = [] := by decide
    have rest : dropUnderscores (lowerAfter (a :: others) ('_' :: t)) =
        dropUnderscores (lowerAfter (a :: before) (b :: s)) := by
      rw [lowerAfter_cons_of_ne (by decide), dropUnderscores_append, mark, List.nil_append]
      exact ih (.inl ⟨b, s, rfl, capital⟩)
    rw [lowerAfter_cons_of_ne other, lowerAfter_cons_of_ne other, dropUnderscores_append,
      dropUnderscores_append, rest]

theorem Parted.head (h : Parted (c :: s) t) : ∃ rest, t = c :: rest := by
  cases h with
  | keep => exact ⟨_, rfl⟩
  | part => exact ⟨_, rfl⟩

/-- Without capital sigmas or without underscores, nothing can differ. -/
theorem sigmasAgree_of_not_mem (h : 'Σ' ∉ s ∨ '_' ∉ s) : SigmasAgree [] s := by
  rintro first rest rfl
  rcases h with sigma | underscore
  · exact absurd (by simp) sigma
  · have plain {part : List Char} (within : ∀ c ∈ part, c ∈ first ++ 'Σ' :: rest) :
        dropUnderscores part = part := by
      refine List.filter_eq_self.mpr fun c hc => ?_
      have apart : c ≠ '_' := by
        rintro rfl
        exact underscore (within _ hc)
      simpa using apart
    rw [plain (by simp +contextual), plain (by simp +contextual)]

end Text

namespace Lint

open Text (SigmasAgree)

variable {s : Snapshot} {f : StubFile} {primary : Namespace} {name : String}

/-- A suggested name matches its namespace exactly if the underscores of that name change no sigma.
-/
theorem looseName_snakeCase_eq_iff (name : String) :
    looseName (snakeCase name) = looseName name ↔ SigmasAgree [] name.toList := by
  have parts : Text.dropUnderscores (Text.lower (cutWords (cutAcronyms name.toList))) =
      Text.dropUnderscores (Text.lower name.toList) :=
    ((Text.parted_cutWords _).dropUnderscores_lowerAfter (.inr rfl)).trans
      ((Text.parted_cutAcronyms _).dropUnderscores_lowerAfter (.inr rfl))
  have again : looseName (snakeCase name) =
      String.ofList (Text.dropUnderscores (Text.lower name.toList)) := by
    rw [looseName, snakeCase, String.toList_ofList, Text.lower_filter_lower, ← parts]
    rfl
  rw [again, looseName, String.ofList_inj]
  exact Text.dropUnderscores_lowerAfter_eq_iff [] name.toList

theorem checkFileNames_append (s : Snapshot) (before after : List StubFile) :
    checkFileNames { s with files := before ++ after } =
      checkFileNames { s with files := before } ++ checkFileNames { s with files := after } :=
  List.filterMap_append

theorem checkFileNames_single (declared : f.primary? = some primary) :
    checkFileNames { s with files := [f] } = [] ↔
      looseName (Path.ofString f.path).stem = looseName primary.name := by
  simp only [checkFileNames, List.filterMap_cons, List.filterMap_nil, declared, Option.bind_eq_bind,
    Option.bind_some]
  by_cases same : looseName (Path.ofString f.path).stem = looseName primary.name
  · simp [same]
  · simp [same]

/-- A suggested file name is not empty without its suffix. -/
theorem snakeCase_ne_empty (named : Capitalized name) : (snakeCase name).toList ≠ [] := by
  obtain ⟨c, rest, letters, capital⟩ := named
  obtain ⟨middle, acronyms⟩ := (Text.parted_cutAcronyms (c :: rest)).head
  obtain ⟨tail, words⟩ := (Text.parted_cutWords (c :: middle)).head
  have range := Text.range_of_isCapital capital
  have other : c ≠ 'Σ' := by
    rintro rfl
    exact absurd capital (by decide)
  rw [snakeCase, String.toList_ofList, letters, acronyms, words, Text.lower,
    Text.lowerAfter_cons_of_ne other, Text.lowerChar_ascii (by omega)]
  exact List.cons_ne_nil _ _

end Lint

/-- The suffix of stub files is removed from a name before it. -/
theorem Path.stem_of_getLast? {p : Path} {name : String} (written : name.toList ≠ [])
    (last : p.parts.getLast? = some (name ++ ".rb")) : p.stem = name := by
  have suffix : ".rb".toList = ['.', 'r', 'b'] := rfl
  have cut : (name.toList ++ ".rb".toList).reverse.span (· != '.') =
      (['b', 'r'], '.' :: name.toList.reverse) := by
    rw [List.reverse_append, suffix]
    exact Text.span_eq_iff.mpr ⟨by simp, by simp, by simp⟩
  have kept : name.toList.reverse.isEmpty = false := by simpa using written
  rw [stem, last, Option.getD_some, String.toList_append, dropSuffix, cut]
  simp [kept]

namespace Lint

open Text (SigmasAgree)

variable {s : Snapshot} {f : StubFile} {primary : Namespace} {before after : List StubFile}

/-- A file with the suggested name gets no finding exactly if the underscores in the name of its
namespace change no capital sigma. A name without capital sigmas or without underscores is such a
name. -/
theorem suggested_file_name_accepted_iff (files : s.files = before ++ f :: after)
    (declared : f.primary? = some primary) (named : Capitalized primary.name)
    (placed : (Path.ofString f.path).parts.getLast? = some (snakeCase primary.name ++ ".rb")) :
    (checkFileNames s = checkFileNames { s with files := before ++ after } ↔
        looseName (snakeCase primary.name) = looseName primary.name) ∧
      (looseName (snakeCase primary.name) = looseName primary.name ↔
        SigmasAgree [] primary.name.toList) ∧
      ('Σ' ∉ primary.name.toList ∨ '_' ∉ primary.name.toList →
        looseName (snakeCase primary.name) = looseName primary.name) := by
  have stem := Path.stem_of_getLast? (snakeCase_ne_empty named) placed
  have whole : s = { s with files := before ++ ([f] ++ after) } := by
    rw [List.singleton_append, ← files]
  refine ⟨?_, looseName_snakeCase_eq_iff _, fun plain => ?_⟩
  · rw [← stem, ← checkFileNames_single (s := s) declared]
    conv_lhs => lhs; rw [whole]
    rw [checkFileNames_append, checkFileNames_append, checkFileNames_append,
      List.append_cancel_left_eq, List.append_left_eq_self]
  · exact (looseName_snakeCase_eq_iff _).mpr (Text.sigmasAgree_of_not_mem plain)

def classFile (name path : String) : StubFile where
  path := path
  namespaces := [{ kind := .klass, name := name, qualifiedName := name, path := path, line := 1 }]

def classSnapshot (name path : String) : Snapshot :=
  .ofFiles ⟨3, 3⟩ { parts := ["stubs"] } [classFile name path] []

theorem win32ole_file_accepted :
    snakeCase "WIN32OLE" = "win32_ole" ∧
      (classFile "WIN32OLE" "stubs/win32_ole.rb").primary?.map (·.name) = some "WIN32OLE" ∧
      checkFileNames (classSnapshot "WIN32OLE" "stubs/win32_ole.rb") = [] := by
  have suggested : snakeCase "WIN32OLE" = "win32_ole" := by decide
  obtain ⟨found, -, plain⟩ := @suggested_file_name_accepted_iff
    (classSnapshot "WIN32OLE" "stubs/win32_ole.rb") _ _ [] [] rfl rfl ⟨'W', _, rfl, rfl⟩
    (by rw [suggested]; decide)
  exact ⟨suggested, rfl, found.mpr (plain (.inl (by decide)))⟩

/-- The sigma ends a word before the underscore, and without the underscore it does not. The finding
names the same file twice. -/
theorem sigma_file_name_refused :
    snakeCase "AΣ_B" = "aς_b" ∧ looseName "aς_b" = "aςb" ∧ looseName "AΣ_B" = "aσb" ∧
      (StubFile.parse "class AΣ_B; end" "stubs/aς_b.rb").toOption =
        some (classFile "AΣ_B" "stubs/aς_b.rb") ∧
      (checkFileNames (classSnapshot "AΣ_B" "stubs/aς_b.rb")).map (·.message) =
        ["File name \x60aς_b.rb\x60 does not match AΣ_B, expected \x60aς_b.rb\x60"] :=
  ⟨by decide, by decide, by decide, by decide, by decide⟩

end Lint

end RubyIndex
