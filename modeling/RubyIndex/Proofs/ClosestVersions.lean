import RubyIndex.Proofs.AvailableVersions
import RubyIndex.Proofs.VersionTexts

/-! The version that is used for a requested one: the greatest of those that have a directory and
are not above it. Which one that is depends on the set of these versions alone, so that it moves up
with the request and stays where it is when it is requested itself. -/
namespace RubyIndex

namespace Version

variable {v w a b : Version} {versions others : List Version}

theorem le_refl (v : Version) : v.le v = true := by simp [le]

theorem le_antisymm (h : a.le b = true) (k : b.le a = true) : a = b := by
  obtain ⟨a₁, a₂⟩ := a
  obtain ⟨b₁, b₂⟩ := b
  simp only [le_iff, lt_iff, Version.mk.injEq] at *
  omega

theorem lt_iff_le_and_ne : a.lt b = true ↔ a.le b = true ∧ a ≠ b := by
  constructor
  · intro h
    exact ⟨le_iff.mpr (.inl h), ne_of_lt h⟩
  · rintro ⟨h, apart⟩
    exact (le_iff.mp h).resolve_right apart

theorem not_le_iff : ¬ a.le b = true ↔ b.lt a = true := by
  obtain ⟨a₁, a₂⟩ := a
  obtain ⟨b₁, b₂⟩ := b
  simp only [le_iff, lt_iff, Version.mk.injEq]
  omega

structure Greatest (versions : List Version) (a : Version) : Prop where
  listed : a ∈ versions
  bound : ∀ b ∈ versions, b.le a = true

/-- The greatest of those versions that are not above a given one. -/
structure Closest (versions : List Version) (v a : Version) : Prop where
  listed : a ∈ versions
  below : a.le v = true
  bound : ∀ b ∈ versions, b.le v = true → b.le a = true

theorem Greatest.unique (h : Greatest versions a) (k : Greatest versions b) : a = b :=
  le_antisymm (k.bound a h.listed) (h.bound b k.listed)

theorem Greatest.cons (h : Greatest versions w) (v : Version) :
    Greatest (v :: versions) (if v.lt w then w else v) := by
  split
  · next less =>
    have below : v.le w = true := le_iff.mpr (.inl less)
    exact ⟨List.mem_cons_of_mem _ h.listed, List.forall_mem_cons.mpr ⟨below, h.bound⟩⟩
  · next other =>
    have above : w.le v = true := by
      by_contra less
      exact other (not_le_iff.mp less)
    refine ⟨List.mem_cons_self, List.forall_mem_cons.mpr ⟨le_refl v, ?_⟩⟩
    intro b hb
    exact le_trans b w v (h.bound b hb) above

theorem greatest?_cases (versions : List Version) :
    (greatest? versions = none ∧ versions = []) ∨
      ∃ a, greatest? versions = some a ∧ Greatest versions a := by
  induction versions with
  | nil => exact .inl ⟨rfl, rfl⟩
  | cons v versions ih =>
    rcases ih with ⟨none, rfl⟩ | ⟨w, found, greatest⟩
    · exact .inr ⟨v, rfl, List.mem_cons_self, by simp [le_refl]⟩
    · exact .inr ⟨_, by rw [greatest?, found], greatest.cons v⟩

theorem Closest.unique (h : Closest versions v a) (k : Closest versions v b) : a = b :=
  le_antisymm (k.bound a h.listed h.below) (h.bound b k.listed k.below)

theorem closest_self (h : v ∈ versions) : Closest versions v v := ⟨h, le_refl v, fun _ _ => id⟩

/-- Below a version that is not listed itself, the listed ones are all lower. -/
theorem closest_of_greatest_lower (other : v ∉ versions)
    (h : Greatest (versions.filter (·.lt v)) a) : Closest versions v a := by
  obtain ⟨listed, less⟩ := List.mem_filter.mp h.listed
  refine ⟨listed, le_iff.mpr (.inl less), ?_⟩
  intro b hb below
  have apart : b ≠ v := fun same => other (same ▸ hb)
  exact h.bound b (List.mem_filter.mpr ⟨hb, lt_iff_le_and_ne.mpr ⟨below, apart⟩⟩)

theorem closest?_cases (v : Version) (versions : List Version) :
    (v.closest? versions = none ∧ ∀ a ∈ versions, v.lt a = true) ∨
      ∃ a, v.closest? versions = some a ∧ Closest versions v a := by
  unfold closest?
  by_cases listed : v ∈ versions
  · exact .inr ⟨v, by simp [listed], closest_self listed⟩
  · have lower : versions.contains v = false := by simpa using listed
    simp only [lower, Bool.false_eq_true, if_false]
    rcases greatest?_cases (versions.filter (·.lt v)) with ⟨none, empty⟩ | ⟨a, found, greatest⟩
    · refine .inl ⟨none, fun a ha => not_le_iff.mp fun below => ?_⟩
      have apart : a ≠ v := fun same => listed (same ▸ ha)
      exact List.filter_eq_nil_iff.mp empty a ha (lt_iff_le_and_ne.mpr ⟨below, apart⟩)
    · exact .inr ⟨a, found, closest_of_greatest_lower listed greatest⟩

/-- The search for the version itself and the search for a lower one find the closest together. -/
theorem closest?_eq_some_iff : v.closest? versions = some a ↔ Closest versions v a := by
  rcases closest?_cases v versions with ⟨none, above⟩ | ⟨b, found, closest⟩
  · rw [none]
    constructor
    · exact nofun
    · intro h
      exact absurd h.below (not_le_iff.mpr (above a h.listed))
  · rw [found, Option.some.injEq]
    constructor
    · rintro rfl
      exact closest
    · exact closest.unique

theorem closest?_eq_none_iff : v.closest? versions = none ↔ ∀ a ∈ versions, v.lt a = true := by
  rcases closest?_cases v versions with ⟨none, above⟩ | ⟨a, found, closest⟩
  · exact ⟨fun _ => above, fun _ => none⟩
  · rw [found]
    constructor
    · exact nofun
    · intro above
      exact absurd closest.below (not_le_iff.mpr (above a closest.listed))

theorem Greatest.of_members (same : ∀ w, w ∈ others ↔ w ∈ versions) (h : Greatest versions a) :
    Greatest others a := ⟨(same a).mpr h.listed, fun b hb => h.bound b ((same b).mp hb)⟩

/-- Neither the order of the candidates nor their repetition matters. -/
theorem closest?_of_members (same : ∀ w, w ∈ others ↔ w ∈ versions) (v : Version) :
    v.closest? others = v.closest? versions := by
  ext a
  rw [closest?_eq_some_iff, closest?_eq_some_iff]
  constructor
  · intro h
    exact ⟨(same a).mp h.listed, h.below, fun b hb => h.bound b ((same b).mpr hb)⟩
  · intro h
    exact ⟨(same a).mpr h.listed, h.below, fun b hb => h.bound b ((same b).mp hb)⟩

/-- The closest version moves up with the request. -/
theorem Closest.mono (h : Closest versions v a) (below : v.le w = true) :
    ∃ b, Closest versions w b ∧ a.le b = true := by
  have candidate := le_trans a v w h.below below
  rcases closest?_cases w versions with ⟨-, above⟩ | ⟨b, -, closest⟩
  · exact absurd candidate (not_le_iff.mpr (above a h.listed))
  · exact ⟨b, closest, closest.bound a h.listed candidate⟩

theorem greatest_getLast? (sorted : versions.Pairwise (·.le · = true))
    (last : versions.getLast? = some a) : Greatest versions a := by
  obtain ⟨before, rfl⟩ := List.getLast?_eq_some_iff.mp last
  refine ⟨by simp, fun b hb => ?_⟩
  rcases List.mem_append.mp hb with hb | hb
  · exact (List.pairwise_append.mp sorted).2.2 b hb a List.mem_cons_self
  · rw [List.mem_singleton.mp hb]
    exact le_refl a

end Version

namespace Corpus

open Version (Closest Greatest Dotted)

variable {c : Corpus} {t : FileTree} {v w a : Version} {available : List Version}
  {source : String} {requested : Option Version}

def resolve (c : Corpus) (tree : FileTree) (requested : Option Version) :
    Except CorpusError Version := do
  c.choose (← c.availableVersions tree) requested

theorem resolveVersion_none (c : Corpus) (t : FileTree) :
    c.resolveVersion t none = c.resolve t none := rfl

theorem resolveVersion_of_parse (read : Version.parse source = .ok v) :
    c.resolveVersion t (some source) = c.resolve t (some v) := by
  simp only [resolveVersion, read]
  rfl

theorem eq_sort_of_availableVersions (discovered : c.availableVersions t = .ok available) :
    available = Version.sort ((c.versionDirectories t).map (·.2)) := by
  unfold availableVersions at discovered
  split at discovered
  · split at discovered
    · cases discovered
    · exact (Except.ok.inj discovered).symm
  · cases discovered
  · cases discovered

theorem mem_availableVersions_iff (discovered : c.availableVersions t = .ok available) :
    v ∈ available ↔ ∃ name, c.HasDirectory t name v := by
  rw [eq_sort_of_availableVersions discovered, mem_sort_versionDirectories]

/-- What is found among the available versions. The default version stands in for a request. -/
def found? (c : Corpus) (available : List Version) (requested : Option Version) : Option Version :=
  match requested.or c.defaultVersion with
  | some v => v.closest? available
  | none => available.getLast?

theorem choose_eq (c : Corpus) (available : List Version) (requested : Option Version) :
    c.choose available requested = match c.found? available requested with
      | some v => .ok v
      | none => .error
        (.notFound (requested.or c.defaultVersion) available c.directory.text) := rfl

theorem resolve_eq_ok_iff (discovered : c.availableVersions t = .ok available) :
    c.resolve t requested = .ok a ↔ c.found? available requested = some a := by
  simp only [resolve, discovered, bind, Except.bind, choose_eq]
  cases c.found? available requested <;> simp

theorem resolve_eq_error_iff (discovered : c.availableVersions t = .ok available)
    {e : CorpusError} : c.resolve t requested = .error e ↔ c.found? available requested = none ∧
      e = .notFound (requested.or c.defaultVersion) available c.directory.text := by
  simp only [resolve, discovered, bind, Except.bind, choose_eq]
  cases c.found? available requested <;> simp [eq_comm]

theorem resolve_some_eq_ok_iff (discovered : c.availableVersions t = .ok available) :
    c.resolve t (some v) = .ok a ↔ Closest available v a := by
  rw [resolve_eq_ok_iff discovered, found?, Option.some_or]
  exact Version.closest?_eq_some_iff

theorem resolve_some_eq_error_iff (discovered : c.availableVersions t = .ok available)
    {e : CorpusError} : c.resolve t (some v) = .error e ↔ (∀ a ∈ available, v.lt a = true) ∧
      e = .notFound (some v) available c.directory.text := by
  rw [resolve_eq_error_iff discovered, found?, Option.some_or]
  exact and_congr_left' Version.closest?_eq_none_iff

theorem found?_none (unset : c.defaultVersion = none) :
    c.found? available none = available.getLast? := by
  rw [found?, unset]
  rfl

/-- Without a default version the last one of the list is used, which is the newest. -/
theorem found?_newest (discovered : c.availableVersions t = .ok available)
    (unset : c.defaultVersion = none) :
    c.found? available none = some a ↔ Greatest available a := by
  have sorted : available.Pairwise (·.le · = true) :=
    eq_sort_of_availableVersions discovered ▸ Version.pairwise_sort _
  rw [found?_none unset]
  constructor
  · exact Version.greatest_getLast? sorted
  · intro greatest
    have written : available ≠ [] := List.ne_nil_of_mem greatest.listed
    have last := List.getLast?_eq_some_getLast written
    rw [last, (Version.greatest_getLast? sorted last).unique greatest]

/-- Only the set of the available versions matters for what is found. -/
theorem resolve_of_members {t' : FileTree} {others : List Version}
    (discovered : c.availableVersions t = .ok available)
    (discovered' : c.availableVersions t' = .ok others)
    (same : ∀ w, w ∈ others ↔ w ∈ available) :
    c.resolve t' requested = .ok a ↔ c.resolve t requested = .ok a := by
  rw [resolve_eq_ok_iff discovered, resolve_eq_ok_iff discovered']
  cases chosen : requested.or c.defaultVersion with
  | some v => simp only [found?, chosen, Version.closest?_of_members same]
  | none =>
    obtain ⟨rfl, unset⟩ := Option.or_eq_none_iff.mp chosen
    rw [found?_newest discovered unset, found?_newest discovered' unset]
    exact ⟨.of_members fun w => (same w).symm, .of_members same⟩

theorem resolveVersion_of_members {t' : FileTree} {others : List Version}
    (discovered : c.availableVersions t = .ok available)
    (discovered' : c.availableVersions t' = .ok others)
    (same : ∀ w, w ∈ others ↔ w ∈ available) (text : Option String) :
    c.resolveVersion t' text = .ok a ↔ c.resolveVersion t text = .ok a := by
  cases text with
  | none => exact resolve_of_members discovered discovered' same
  | some source =>
    cases read : Version.parse source with
    | ok v =>
      rw [resolveVersion_of_parse read, resolveVersion_of_parse read]
      exact resolve_of_members discovered discovered' same
    | error e => simp [resolveVersion, discovered, discovered', read, bind, Except.bind]

structure ResolvesClosest (c : Corpus) (t : FileTree) (available : List Version) : Prop where
  /-- The available versions are those that have a directory. -/
  directories : ∀ v, v ∈ available ↔ ∃ name, c.HasDirectory t name v
  closest : ∀ v a, c.resolve t (some v) = .ok a ↔ Closest available v a
  missing : ∀ v e, c.resolve t (some v) = .error e ↔ (∀ a ∈ available, v.lt a = true) ∧
    e = .notFound (some v) available c.directory.text
  /-- A text stands for the version that it is read as. -/
  text : ∀ source v, Version.parse source = .ok v →
    c.resolveVersion t (some source) = c.resolve t (some v)
  monotone : ∀ v w a, v.le w = true → c.resolve t (some v) = .ok a →
    ∃ b, c.resolve t (some w) = .ok b ∧ a.le b = true
  idempotent : ∀ v a, c.resolve t (some v) = .ok a →
    c.resolve t (some a) = .ok a ∧ c.resolveVersion t (some a.text) = .ok a
  /-- Candidates in another order, or with others repeated, have the same closest one. -/
  candidates : ∀ others, (∀ w, w ∈ others ↔ w ∈ available) →
    ∀ v a, v.closest? others = some a ↔ c.resolve t (some v) = .ok a
  /-- So has another tree with the same versions. -/
  trees : ∀ t' others, c.availableVersions t' = .ok others → (∀ w, w ∈ others ↔ w ∈ available) →
    ∀ text a, c.resolveVersion t' text = .ok a ↔ c.resolveVersion t text = .ok a
  /-- What comes after the first two numbers makes no difference, nor do blanks around it. -/
  alike : ∀ source other v, Dotted (Text.trim source.toList) v → Dotted (Text.trim other.toList) v →
    c.resolveVersion t (some source) = c.resolveVersion t (some other)
  default : ∀ v, c.defaultVersion = some v → c.resolveVersion t none = c.resolve t (some v)
  newest : c.defaultVersion = none →
    (∀ a, c.resolveVersion t none = .ok a ↔ Greatest available a) ∧
      ∀ e, c.resolveVersion t none = .error e ↔
        available = [] ∧ e = .notFound none available c.directory.text

theorem resolve_default (chosen : c.defaultVersion = some v) :
    c.resolve t none = c.resolve t (some v) := by
  simp only [resolve, choose, chosen, Option.none_or, Option.some_or]

theorem closest_version_resolved (discovered : c.availableVersions t = .ok available) :
    c.ResolvesClosest t available where
  directories _ := mem_availableVersions_iff discovered
  closest _ _ := resolve_some_eq_ok_iff discovered
  missing _ _ := resolve_some_eq_error_iff discovered
  text _ _ := resolveVersion_of_parse
  monotone v w a below found := by
    obtain ⟨b, closest, above⟩ := ((resolve_some_eq_ok_iff discovered).mp found).mono below
    exact ⟨b, (resolve_some_eq_ok_iff discovered).mpr closest, above⟩
  idempotent v a found := by
    have listed := ((resolve_some_eq_ok_iff discovered).mp found).listed
    have again := (resolve_some_eq_ok_iff discovered).mpr (Version.closest_self listed)
    exact ⟨again, (resolveVersion_of_parse (Version.parse_text a)).trans again⟩
  candidates others same v a := by
    rw [Version.closest?_of_members same, Version.closest?_eq_some_iff,
      resolve_some_eq_ok_iff discovered]
  trees _ _ discovered' same text _ := resolveVersion_of_members discovered discovered' same text
  alike _ _ _ first second :=
    (resolveVersion_of_parse (Version.parse_eq_ok_iff.mpr (.inl first))).trans
      (resolveVersion_of_parse (Version.parse_eq_ok_iff.mpr (.inl second))).symm
  default _ := resolve_default
  newest unset := by
    refine ⟨fun a => (resolve_eq_ok_iff discovered).trans (found?_newest discovered unset), ?_⟩
    intro e
    rw [resolveVersion_none, resolve_eq_error_iff discovered, found?_none unset, unset,
      List.getLast?_eq_none_iff]
    rfl

def twoVersionTree : FileTree :=
  (({} : FileTree).makeDirectory ["stubs", "rubystubs27"]).makeDirectory ["stubs", "rubystubs33"]

/-- Any 3.1 is answered by 2.7, no 2.2 is answered, and without a request 3.3 is used. -/
theorem lower_version_resolved :
    stubsCorpus.availableVersions twoVersionTree = .ok [⟨2, 7⟩, ⟨3, 3⟩] ∧
      stubsCorpus.resolveVersion twoVersionTree (some " 3.1.4-preview1\n") = .ok ⟨2, 7⟩ ∧
      stubsCorpus.resolveVersion twoVersionTree (some "rubystubs22") =
        .error (.notFound (some ⟨2, 2⟩) [⟨2, 7⟩, ⟨3, 3⟩] "stubs") ∧
      stubsCorpus.resolveVersion twoVersionTree none = .ok ⟨3, 3⟩ := by
  have named : stubsCorpus.versionDirectories twoVersionTree =
      [("rubystubs27", ⟨2, 7⟩), ("rubystubs33", ⟨3, 3⟩)] := by decide
  have discovered : stubsCorpus.availableVersions twoVersionTree = .ok [⟨2, 7⟩, ⟨3, 3⟩] := by
    rw [availableVersions_eq (by decide) (by decide), named, Version.sort,
      List.mergeSort_of_pairwise (by decide)]
    rfl
  have answers := closest_version_resolved discovered
  have read : Version.parse " 3.1.4-preview1\n" = .ok ⟨3, 1⟩ := by decide
  have read' : Version.parse "rubystubs22" = .ok ⟨2, 2⟩ := by decide
  refine ⟨discovered, ?_, ?_, ?_⟩
  · rw [answers.text _ _ read, answers.closest]
    exact ⟨by decide, by decide, by decide⟩
  · rw [answers.text _ _ read', answers.missing]
    exact ⟨by decide, rfl⟩
  · rw [(answers.newest rfl).1]
    exact ⟨by decide, by decide⟩

end Corpus

end RubyIndex
