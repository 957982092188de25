import Mathlib.Algebra.BigOperators.Group.List.Lemmas
import Mathlib.Algebra.GroupWithZero.Nat
import RubyIndex.Lint.Report
import RubyIndex.Proofs.FirstOccurrences
import RubyIndex.Proofs.StableSorting

/-! Selecting rules filters a report. The rules look at the snapshot alone, and a report keeps the
order in which they find what stands at one place, so that a selection only leaves findings out. -/
namespace RubyIndex.Lint

variable {s : Snapshot} {f g : Finding} {rules disabled : List String}

theorem rule_of_mem_check {r : Rule} (found : f ∈ r.check s) : f.rule = r := by
  cases r with
  | undocumentedParameter =>
    obtain ⟨site, -, found⟩ := List.mem_flatMap.mp found
    obtain ⟨m, -, found⟩ := List.mem_flatMap.mp found
    obtain ⟨p, -, rfl⟩ := List.mem_map.mp found
    rfl
  | danglingAlias =>
    obtain ⟨site, -, found⟩ := List.mem_flatMap.mp found
    obtain ⟨a, -, rfl⟩ := List.mem_map.mp found
    rfl
  | duplicateMember =>
    obtain ⟨name, -, found⟩ := List.mem_flatMap.mp found
    obtain ⟨m, -, rfl⟩ := List.mem_map.mp found
    rfl
  | unrecognizedStatement =>
    obtain ⟨file, -, found⟩ := List.mem_flatMap.mp found
    obtain ⟨d, -, rfl⟩ := List.mem_map.mp found
    rfl
  | superclassConflict | parseError =>
    obtain ⟨source, -, rfl⟩ := List.mem_map.mp found
    rfl
  | unknownSuperclass =>
    obtain ⟨site, -, found⟩ := List.mem_filterMap.mp found
    obtain ⟨superclass, -, found⟩ := Option.bind_eq_some_iff.mp found
    split at found
    · cases found
    · cases found
      rfl
  | fileNameMismatch =>
    obtain ⟨file, -, found⟩ := List.mem_filterMap.mp found
    obtain ⟨primary, -, found⟩ := Option.bind_eq_some_iff.mp found
    dsimp only at found
    split at found
    · cases found
    · cases found
      rfl
  | duplicateNamespace =>
    obtain ⟨⟨path, n⟩, -, found⟩ := List.mem_filterMap.mp found
    obtain ⟨⟨first, m⟩, -, found⟩ := Option.bind_eq_some_iff.mp found
    dsimp only at found
    split at found
    · cases found
    · cases found
      rfl

namespace Finding

theorem before_iff : f.before g = true ↔ f.path < g.path ∨
    f.path = g.path ∧ (f.line < g.line ∨ f.line = g.line ∧ f.rule.name ≤ g.rule.name) := by
  unfold before
  by_cases path : f.path = g.path
  · by_cases line : f.line = g.line
    · simp [path, line]
    · simp [path, line]
  · simp [path]

theorem before_trans (a b c : Finding) (hab : a.before b = true) (hbc : b.before c = true) :
    a.before c = true := by
  rw [before_iff] at hab hbc ⊢
  rcases hab with path | ⟨path, hab⟩
  · rcases hbc with more | ⟨same, -⟩
    · exact Or.inl (String.lt_trans path more)
    · exact Or.inl (same ▸ path)
  · rcases hbc with more | ⟨same, hbc⟩
    · exact Or.inl (path ▸ more)
    · refine Or.inr ⟨path.trans same, ?_⟩
      rcases hab with line | ⟨line, rule⟩
      · rcases hbc with more | ⟨same, -⟩
        · exact Or.inl (by omega)
        · exact Or.inl (by omega)
      · rcases hbc with more | ⟨same, later⟩
        · exact Or.inl (by omega)
        · exact Or.inr ⟨by omega, String.le_trans rule later⟩

theorem before_total (a b : Finding) : (a.before b || b.before a) = true := by
  rw [Bool.or_eq_true, before_iff, before_iff]
  rcases Std.lt_trichotomy a.path b.path with less | same | more
  · exact Or.inl (Or.inl less)
  · rcases Nat.lt_trichotomy a.line b.line with less | equal | more
    · exact Or.inl (Or.inr ⟨same, Or.inl less⟩)
    · rcases String.le_total a.rule.name b.rule.name with le | ge
      · exact Or.inl (Or.inr ⟨same, Or.inr ⟨equal, le⟩⟩)
      · exact Or.inr (Or.inr ⟨same.symm, Or.inr ⟨equal.symm, ge⟩⟩)
    · exact Or.inr (Or.inr ⟨same.symm, Or.inl more⟩)
  · exact Or.inr (Or.inl more)

end Finding

def Selects (rules disabled : List String) (name : String) : Prop :=
  (rules = [] ∨ name ∈ rules) ∧ name ∉ disabled

instance (rules disabled : List String) (name : String) : Decidable (Selects rules disabled name) :=
  inferInstanceAs (Decidable (_ ∧ _))

def produced (s : Snapshot) (rules disabled : List String) : List Finding :=
  (Rule.all.filter fun r => Selects rules disabled r.name).flatMap fun r => r.check s

/-- What some rules find is found under the names of those rules. -/
theorem filter_flatMap_check (s : Snapshot) (keep : Rule → Bool) (rs : List Rule) :
    (rs.flatMap fun r => r.check s).filter (fun f => keep f.rule) =
      (rs.filter keep).flatMap fun r => r.check s := by
  induction rs with
  | nil => rfl
  | cons r rest ih =>
    rw [List.flatMap_cons, List.filter_append, ih]
    by_cases kept : keep r = true
    · have all : (r.check s).filter (fun f => keep f.rule) = r.check s :=
        List.filter_eq_self.mpr fun f found => by rw [rule_of_mem_check found, kept]
      rw [List.filter_cons_of_pos kept, List.flatMap_cons, all]
    · have none : (r.check s).filter (fun f => keep f.rule) = [] :=
        List.filter_eq_nil_iff.mpr fun f found => by rwa [rule_of_mem_check found]
      rw [List.filter_cons_of_neg kept, none, List.nil_append]

theorem produced_eq_filter (s : Snapshot) (rules disabled : List String) :
    produced s rules disabled =
      (produced s [] []).filter fun f => Selects rules disabled f.rule.name := by
  have all : (Rule.all.filter fun r => Selects [] [] r.name) = Rule.all := by
    simp [Selects]
  rw [produced, produced, all]
  exact (filter_flatMap_check s (fun r => Selects rules disabled r.name) Rule.all).symm

theorem lint_eq (known : ∀ name ∈ rules ++ disabled, name ∈ Rule.names) :
    lint s rules disabled = .ok (Report.ofFindings s (produced s rules disabled)) := by
  have unknown : ((rules ++ disabled).find? fun n => !Rule.names.contains n) = none := by
    rw [List.find?_eq_none]
    intro name listed
    simpa using known name listed
  have selected : selectRules rules disabled =
      .ok (Rule.all.filter fun r => Selects rules disabled r.name) := by
    rw [selectRules, unknown]
    refine congrArg Except.ok (List.filter_congr fun r _ => ?_)
    rw [Bool.eq_iff_iff, decide_eq_true_iff]
    simp [Selects]
  rw [lint, selected]
  rfl

namespace Report

variable {r : Report}

/-- The findings of a report against the list of them that it was made from: the same ones by path,
line and rule, where those that agree on all three keep their order. -/
structure Arranges (r : Report) (found : List Finding) : Prop where
  items : r.findings.Perm found
  sorted : r.findings.Pairwise fun a b => a.path < b.path ∨
    a.path = b.path ∧ (a.line < b.line ∨ a.line = b.line ∧ a.rule.name ≤ b.rule.name)
  stable : ∀ path line rule,
    (r.findings.filter fun f => f.path = path ∧ f.line = line ∧ f.rule.name = rule) =
      found.filter fun f => f.path = path ∧ f.line = line ∧ f.rule.name = rule

theorem arranges_ofFindings (s : Snapshot) (found : List Finding) :
    (ofFindings s found).Arranges found := by
  constructor
  · exact List.mergeSort_perm found _
  · refine (List.pairwise_mergeSort Finding.before_trans Finding.before_total found).imp ?_
    intro a b le
    exact Finding.before_iff.mp le
  · intro path line rule
    rw [ofFindings, filter_mergeSort Finding.before_trans Finding.before_total,
      List.mergeSort_of_pairwise]
    apply List.pairwise_of_forall_mem_list
    intro a ha b hb
    have keyA : a.path = path ∧ a.line = line ∧ a.rule.name = rule := by
      simpa using (List.mem_filter.mp ha).2
    have keyB : b.path = path ∧ b.line = line ∧ b.rule.name = rule := by
      simpa using (List.mem_filter.mp hb).2
    rw [Finding.before_iff]
    simp [keyA, keyB]

structure Counts (r : Report) : Prop where
  severities : r.errors + r.warnings = r.findings.length
  total : (r.counts.map (·.2)).sum = r.findings.length
  names : (r.counts.map (·.1)).Nodup
  entries : ∀ name n, (name, n) ∈ r.counts ↔
    0 < n ∧ n = (r.findings.filter fun f => f.rule.name = name).length
  hasErrors : r.hasErrors = true ↔ ∃ f ∈ r.findings, f.severity = .error

def ruleNames (r : Report) : List String := sortOn id (keepFirst id (r.findings.map (·.rule.name)))

theorem nodup_ruleNames (r : Report) : r.ruleNames.Nodup := by
  have distinct := nodup_map_keepFirst id (r.findings.map (·.rule.name))
  rw [List.map_id] at distinct
  exact (List.mergeSort_perm _ _).nodup_iff.mpr distinct

theorem mem_ruleNames {name : String} :
    name ∈ r.ruleNames ↔ name ∈ r.findings.map (·.rule.name) := by
  rw [ruleNames, sortOn, List.mem_mergeSort, mem_keepFirst_id]

theorem counts_eq (r : Report) : r.counts =
    r.ruleNames.map fun name => (name, (r.findings.map (·.rule.name)).count name) := by
  refine List.map_congr_left fun name _ => ?_
  rw [List.count, List.countP_map]
  rfl

theorem sum_counts (r : Report) : (r.counts.map (·.2)).sum = r.findings.length := by
  have perm : r.ruleNames.Perm (r.findings.map (·.rule.name)).dedup := by
    refine (List.perm_ext_iff_of_nodup r.nodup_ruleNames (List.nodup_dedup _)).mpr fun name => ?_
    rw [mem_ruleNames, List.mem_dedup]
  calc (r.counts.map (·.2)).sum
    _ = (r.ruleNames.map fun name => (r.findings.map (·.rule.name)).count name).sum := by
      rw [counts_eq, List.map_map]
      rfl
    _ = ((r.findings.map (·.rule.name)).dedup.map
        fun name => (r.findings.map (·.rule.name)).count name).sum := (perm.map _).sum_eq
    _ = (r.findings.map (·.rule.name)).length := List.sum_map_count_dedup_eq_length _
    _ = r.findings.length := List.length_map _

theorem mem_counts_iff {name : String} {n : Nat} : (name, n) ∈ r.counts ↔
    0 < n ∧ n = (r.findings.filter fun f => f.rule.name = name).length := by
  have number : (r.findings.map (·.rule.name)).count name =
      (r.findings.filter fun f => f.rule.name = name).length := by
    rw [List.count, List.countP_map, List.countP_eq_length_filter]
    rfl
  rw [counts_eq, List.mem_map, ← number]
  constructor
  · rintro ⟨other, listed, same⟩
    cases same
    exact ⟨List.count_pos_iff.mpr (mem_ruleNames.mp listed), rfl⟩
  · rintro ⟨some, rfl⟩
    exact ⟨name, mem_ruleNames.mpr (List.count_pos_iff.mp some), rfl⟩

theorem counts_totals (r : Report) : r.Counts := by
  constructor
  · have other : r.warnings = r.findings.countP fun f => ¬(f.severity == .error) = true := by
      refine List.countP_congr fun f _ => ?_
      cases f.severity <;> simp
    rw [errors, other, ← List.length_eq_countP_add_countP]
  · exact r.sum_counts
  · rw [counts_eq, List.map_map]
    simpa [Function.comp_def] using r.nodup_ruleNames
  · intro name n
    exact mem_counts_iff
  · simp [hasErrors, errors]

end Report

/-- Selecting rules leaves out the findings of the others and changes nothing else. The findings of
a report are what its rules find, in order, and its numbers are theirs. -/
theorem selection_filters_report (s : Snapshot)
    (known : ∀ name ∈ rules ++ disabled, name ∈ Rule.names) :
    ∃ whole part, lint s [] [] = .ok whole ∧ lint s rules disabled = .ok part ∧
      part = { whole with findings := whole.findings.filter fun f =>
        (rules = [] ∨ f.rule.name ∈ rules) ∧ f.rule.name ∉ disabled } ∧
      part.Arranges (produced s rules disabled) ∧ part.Counts := by
  refine ⟨_, _, lint_eq (by simp), lint_eq known, ?_, Report.arranges_ofFindings _ _,
    Report.counts_totals _⟩
  have filtered := filter_mergeSort Finding.before_trans Finding.before_total
    (fun f => Selects rules disabled f.rule.name) (produced s [] [])
  rw [← produced_eq_filter] at filtered
  simp only [Report.ofFindings, ← filtered]
  rfl

def smudgedSnapshot : Snapshot :=
  .ofFiles ⟨3, 3⟩ { parts := ["stubs"] }
    [{ path := "stubs/shape.rb"
       namespaces :=
         [{ kind := .klass, name := "Shape", qualifiedName := "Shape", path := "stubs/shape.rb",
            line := 1, aliases := [⟨"paint", "draw", .inst, 3⟩] }]
       diagnostics := [⟨"draw!", 2⟩] }]
    [⟨"stubs/broken.rb", 1, "Malformed method definition"⟩]

theorem smudged_selection : ∃ whole part, lint smudgedSnapshot [] [] = .ok whole ∧
    lint smudgedSnapshot ["dangling-alias", "parse-error"] ["parse-error"] = .ok part ∧
    part.findings = whole.findings.filter (fun f =>
      f.rule.name ∈ ["dangling-alias", "parse-error"] ∧ f.rule.name ∉ ["parse-error"]) ∧
    part.findings.map (·.rule) = [.danglingAlias] ∧ part.errors + part.warnings = 1 := by
  have known : ∀ name ∈ ["dangling-alias", "parse-error"] ++ ["parse-error"],
      name ∈ Rule.names := by decide
  obtain ⟨whole, part, all, selected, filtered, arranged, counts⟩ :=
    selection_filters_report smudgedSnapshot known
  have found : (produced smudgedSnapshot ["dangling-alias", "parse-error"] ["parse-error"]).map
      (·.rule) = [.danglingAlias] := by cbv
  have one : part.findings.map (·.rule) = [.danglingAlias] := by
    have perm := arranged.items.map (·.rule)
    rw [found] at perm
    exact List.perm_singleton.mp perm
  refine ⟨whole, part, all, selected, by simpa using congrArg Report.findings filtered, one, ?_⟩
  rw [counts.severities, ← List.length_map (·.rule), one]
  rfl

end RubyIndex.Lint
