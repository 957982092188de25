import RubyIndex.Proofs.FirstOccurrences
import RubyIndex.Proofs.StableSorting
import RubyIndex.SymbolTable.Search

/-! Searching the symbols of a table. Each symbol is looked at once, on its own, and what it matches
depends on the set of the keywords alone. Sorting then ranks the hits, and leaves hits of one rank
in the order of the table. -/
namespace RubyIndex

/-- A strictly ascending list is known from what is in it. -/
theorem eq_of_ascending {l₁ l₂ : List String} (first : l₁.Pairwise (· < ·))
    (second : l₂.Pairwise (· < ·)) (same : ∀ x, x ∈ l₁ ↔ x ∈ l₂) : l₁ = l₂ := by
  have distinct {l : List String} (ascend : l.Pairwise (· < ·)) : l.Nodup :=
    List.Pairwise.imp (fun less => Std.ne_of_lt less) ascend
  have perm : l₁.Perm l₂ :=
    (List.perm_ext_iff_of_nodup (distinct first) (distinct second)).mpr same
  exact perm.eq_of_pairwise (fun a b _ _ less more => absurd less (String.lt_asymm more))
    first second

/-- The keywords of a search are the given texts in lower case, without the blank ones. -/
def IsKeyword (given : List String) (k : String) : Prop :=
  ∃ w ∈ given, Text.blankText w.toList = false ∧ String.ofList (Text.lower w.toList) = k

theorem mem_normalKeywords_iff {given : List String} {k : String} :
    k ∈ normalKeywords given ↔ IsKeyword given k := by
  simp only [normalKeywords, sortOn, List.mem_mergeSort, mem_keepFirst_id, List.mem_map,
    List.mem_filter, Bool.not_eq_true', and_assoc, IsKeyword]

theorem normalKeywords_ascend (given : List String) :
    (normalKeywords given).Pairwise (· < ·) := by
  have sorted : (normalKeywords given).Pairwise (· ≤ ·) := pairwise_sortOn id _
  have distinct : (normalKeywords given).Nodup := by
    rw [normalKeywords, sortOn, (List.mergeSort_perm _ _).nodup_iff]
    simpa using nodup_map_keepFirst id _
  exact sorted.imp₂ (fun a b le ne => Std.lt_of_le_of_ne le ne) distinct

/-- Keywords that are the same as a set are the same once they are in order. -/
theorem normalKeywords_congr {given other : List String}
    (same : ∀ k, IsKeyword given k ↔ IsKeyword other k) :
    normalKeywords given = normalKeywords other :=
  eq_of_ascending (normalKeywords_ascend given) (normalKeywords_ascend other) fun k => by
    rw [mem_normalKeywords_iff, mem_normalKeywords_iff, same]

theorem mem_occurring_iff {keywords : List String} {text k : String} :
    k ∈ occurring keywords text ↔
      k ∈ keywords ∧ k.toList <:+: Text.lower text.toList := by
  rw [occurring, List.mem_filter, Text.occursIn_iff]

namespace Searchable

def NamedBy (s : Searchable) (k : String) : Prop :=
  k.toList <:+: Text.lower s.qualifiedName.toList

def MatchedBy (s : Searchable) (k : String) : Prop :=
  s.NamedBy k ∨ ∃ text, s.documentation = some text ∧ k.toList <:+: Text.lower text.toList

/-- The hit of a symbol: it lists the keywords that match the symbol, which are some. -/
structure HitBy (s : Searchable) (given : List String) (h : SearchHit) : Prop where
  kind : h.kind = s.kind
  qualifiedName : h.qualifiedName = s.qualifiedName
  documentation : h.documentation = s.documentation
  nameMatch : h.nameMatch = true ↔ ∃ k, IsKeyword given k ∧ s.NamedBy k
  keywords : ∀ k, k ∈ h.keywords ↔ IsKeyword given k ∧ s.MatchedBy k
  ascending : h.keywords.Pairwise (· < ·)
  matched : h.keywords ≠ []

variable {s : Searchable} {given keywords : List String} {h h' : SearchHit}

theorem HitBy.unique (first : s.HitBy given h) (second : s.HitBy given h') : h = h' := by
  have names : h.nameMatch = h'.nameMatch := by
    rw [Bool.eq_iff_iff, first.nameMatch, second.nameMatch]
  have listed : h.keywords = h'.keywords :=
    eq_of_ascending first.ascending second.ascending fun k => by
      rw [first.keywords, second.keywords]
  have kind := first.kind.trans second.kind.symm
  have qualifiedName := first.qualifiedName.trans second.qualifiedName.symm
  have documentation := first.documentation.trans second.documentation.symm
  cases h
  cases h'
  simp_all

def found (s : Searchable) (keywords : List String) : List String :=
  keywords.filter fun k =>
    (occurring keywords s.qualifiedName).contains k ||
      ((s.documentation.map (occurring keywords)).getD []).contains k

theorem mem_found_iff {k : String} :
    k ∈ s.found keywords ↔ k ∈ keywords ∧ s.MatchedBy k := by
  unfold found MatchedBy NamedBy
  rw [List.mem_filter, Bool.or_eq_true, List.contains_iff_mem, List.contains_iff_mem,
    mem_occurring_iff]
  refine and_congr_right fun keyword => or_congr (and_iff_right keyword) ?_
  cases s.documentation with
  | none => simp
  | some text => simpa [mem_occurring_iff] using fun _ => keyword

theorem hit?_eq (s : Searchable) (keywords : List String) (requireAll : Bool) :
    s.hit? keywords requireAll =
      if (s.found keywords).isEmpty ||
          (requireAll && (s.found keywords).length < keywords.length) then none
      else some ⟨s.kind, s.qualifiedName, !(occurring keywords s.qualifiedName).isEmpty,
        s.found keywords, s.documentation⟩ := rfl

theorem hit?_some_iff : s.hit? (normalKeywords given) false = some h ↔ s.HitBy given h := by
  have made (some_keyword : s.found (normalKeywords given) ≠ []) :
      s.HitBy given ⟨s.kind, s.qualifiedName,
        !(occurring (normalKeywords given) s.qualifiedName).isEmpty,
        s.found (normalKeywords given), s.documentation⟩ := by
    constructor
    case nameMatch =>
      simp only [Bool.not_eq_true', List.isEmpty_eq_false_iff_exists_mem, mem_occurring_iff,
        mem_normalKeywords_iff]
      rfl
    case keywords =>
      intro k
      rw [mem_found_iff, mem_normalKeywords_iff]
    case ascending => exact (normalKeywords_ascend given).filter _
    case matched => exact some_keyword
    all_goals rfl
  rw [hit?_eq, Bool.false_and, Bool.or_false]
  constructor
  · intro hit
    split at hit
    · cases hit
    · next some_keyword =>
      obtain rfl := Option.some.inj hit
      exact made (by simpa using some_keyword)
  · intro hit
    obtain ⟨k, hk⟩ := List.exists_mem_of_ne_nil _ hit.matched
    have some_keyword : s.found (normalKeywords given) ≠ [] := by
      refine List.ne_nil_of_mem (a := k) ?_
      rw [mem_found_iff, mem_normalKeywords_iff]
      exact (hit.keywords k).mp hk
    rw [if_neg (by simpa using some_keyword), (made some_keyword).unique hit]

theorem hit?_eq_none_iff : s.hit? (normalKeywords given) false = none ↔
    ∀ k, IsKeyword given k → ¬ s.MatchedBy k := by
  rw [hit?_eq, Bool.false_and, Bool.or_false]
  simp only [ite_eq_left_iff, reduceCtorEq, imp_false, not_not, List.isEmpty_iff,
    List.eq_nil_iff_forall_not_mem, mem_found_iff, mem_normalKeywords_iff, not_and]

theorem length_found_lt_iff : (s.found keywords).length < keywords.length ↔
    ¬ ∀ k ∈ keywords, k ∈ s.found keywords := by
  have fewer : (s.found keywords).length ≤ keywords.length := List.length_filter_le _ _
  have all :
      (s.found keywords).length = keywords.length ↔ ∀ k ∈ keywords, k ∈ s.found keywords := by
    rw [found, List.length_filter_eq_length_iff]
    exact forall₂_congr fun k hk => by rw [List.mem_filter, and_iff_right hk]
  rw [← all]
  omega

/-- The hits of symbols, in the order of the symbols. A symbol has one hit, or none if no keyword
matches it. -/
inductive HitsOf (given : List String) : List Searchable → List SearchHit → Prop
  | nil : HitsOf given [] []
  | hit {s : Searchable} {h : SearchHit} {symbols : List Searchable} {hits : List SearchHit}
      (matched : s.HitBy given h) (others : HitsOf given symbols hits) :
      HitsOf given (s :: symbols) (h :: hits)
  | miss {s : Searchable} {symbols : List Searchable} {hits : List SearchHit}
      (unmatched : ∀ k, IsKeyword given k → ¬ s.MatchedBy k)
      (others : HitsOf given symbols hits) : HitsOf given (s :: symbols) hits

theorem HitsOf.filterMap (given : List String) (symbols : List Searchable) :
    HitsOf given symbols (symbols.filterMap (·.hit? (normalKeywords given) false)) := by
  induction symbols with
  | nil => exact .nil
  | cons s symbols ih =>
    cases made : s.hit? (normalKeywords given) false with
    | none =>
      simp only [List.filterMap_cons, made]
      exact .miss (hit?_eq_none_iff.mp made) ih
    | some h =>
      simp only [List.filterMap_cons, made]
      exact .hit (hit?_some_iff.mp made) ih

/-- A symbol is a hit for all keywords if it is a hit and has all of them. -/
theorem hit?_requireAll (s : Searchable) (keywords : List String) :
    s.hit? keywords true = (s.hit? keywords false).filter fun h =>
      keywords.all (h.keywords.contains ·) := by
  rw [hit?_eq, hit?_eq, Bool.true_and, Bool.false_and, Bool.or_false]
  by_cases none : (s.found keywords).isEmpty = true
  · rw [none, Bool.true_or, if_pos rfl, Option.filter_none]
  · rw [Bool.not_eq_true] at none
    rw [none, Bool.false_or, if_neg Bool.false_ne_true, Option.filter_some]
    simp only [List.all_eq_true, List.contains_iff_mem, decide_eq_true_eq, length_found_lt_iff]
    by_cases all : ∀ k ∈ keywords, k ∈ s.found keywords
    · rw [if_neg (not_not_intro all), if_pos all]
    · rw [if_pos all, if_neg all]

end Searchable

namespace SearchHit

variable {a b : SearchHit}

/-- The order of hits: those by name first, then those with more keywords, then by name. -/
def Precedes (a b : SearchHit) : Prop :=
  (a.nameMatch = true ∧ b.nameMatch = false) ∨
    a.nameMatch = b.nameMatch ∧ (b.keywords.length < a.keywords.length ∨
      a.keywords.length = b.keywords.length ∧ a.qualifiedName ≤ b.qualifiedName)

def rank (h : SearchHit) : Bool × Nat × String := (h.nameMatch, h.keywords.length, h.qualifiedName)

theorem before_iff : a.before b = true ↔ a.Precedes b := by
  unfold before Precedes
  by_cases name : a.nameMatch = b.nameMatch
  · by_cases length : a.keywords.length = b.keywords.length
    · simp [name, length]
    · simp [name, length]
  · cases ha : a.nameMatch <;> cases hb : b.nameMatch <;> simp_all

theorem before_trans (a b c : SearchHit) (hab : a.before b = true) (hbc : b.before c = true) :
    a.before c = true := by
  rw [before_iff] at hab hbc ⊢
  unfold Precedes at hab hbc ⊢
  rcases hab with ⟨name, other⟩ | ⟨name, hab⟩
  · rcases hbc with ⟨more, -⟩ | ⟨same, -⟩
    · exact absurd (more.symm.trans other) (by simp)
    · exact .inl ⟨name, same ▸ other⟩
  · rcases hbc with ⟨more, other⟩ | ⟨same, hbc⟩
    · exact .inl ⟨name.trans more, other⟩
    · refine .inr ⟨name.trans same, ?_⟩
      rcases hab with length | ⟨length, hab⟩
      · exact .inl (by omega)
      · rcases hbc with more | ⟨same, hbc⟩
        · exact .inl (by omega)
        · exact .inr ⟨by omega, String.le_trans hab hbc⟩

theorem before_total (a b : SearchHit) : (a.before b || b.before a) = true := by
  rw [Bool.or_eq_true, before_iff, before_iff]
  unfold Precedes
  rcases Nat.lt_trichotomy a.keywords.length b.keywords.length with fewer | same | more
  · cases a.nameMatch <;> cases b.nameMatch <;> simp [fewer]
  · have := String.le_total a.qualifiedName b.qualifiedName
    cases a.nameMatch <;> cases b.nameMatch <;> simp [same, this]
  · cases a.nameMatch <;> cases b.nameMatch <;> simp [more]

theorem tied_before_iff : tied before a b = true ↔ b.rank = a.rank := by
  rw [tied_iff, before_iff, before_iff]
  unfold Precedes rank
  constructor
  · rintro ⟨first, second⟩
    rcases first with ⟨name, other⟩ | ⟨name, first⟩
    · simp_all
    · rcases second with ⟨more, other⟩ | ⟨-, second⟩
      · simp_all
      · have length : b.keywords.length = a.keywords.length := by omega
        have le : a.qualifiedName ≤ b.qualifiedName := (first.resolve_left (by omega)).2
        have ge : b.qualifiedName ≤ a.qualifiedName := (second.resolve_left (by omega)).2
        rw [name, length, String.le_antisymm le ge]
  · intro same
    simp only [Prod.mk.injEq] at same
    obtain ⟨name, length, qualifiedName⟩ := same
    simp [name, length, qualifiedName]

end SearchHit

namespace SymbolTable

variable {t : SymbolTable} {given : List String}

inductive HasSymbol (t : SymbolTable) : Searchable → Prop
  | entry {n : Namespace} (hn : n ∈ t.namespaces) :
      HasSymbol t ⟨n.kind.symbolKind, n.qualifiedName, n.documentation⟩
  | method {n : Namespace} {m : Method} (hn : n ∈ t.namespaces) (hm : m ∈ n.methods) :
      HasSymbol t ⟨.method, m.qualifiedName n.qualifiedName, m.documentation⟩
  | constant {n : Namespace} {c : Constant} (hn : n ∈ t.namespaces) (hc : c ∈ n.constants) :
      HasSymbol t ⟨.constant, n.qualifiedName ++ "::" ++ c.name, c.documentation⟩
  | global {g : GlobalVariable} (hg : g ∈ t.globals) :
      HasSymbol t ⟨.global, g.name, g.documentation⟩

theorem mem_searchables_iff {s : Searchable} : s ∈ t.searchables ↔ t.HasSymbol s := by
  simp only [searchables, Namespace.searchables, List.mem_append, List.mem_flatMap, List.mem_map,
    List.mem_cons, List.cons_append]
  constructor
  · rintro (⟨n, hn, rfl | ⟨m, hm, rfl⟩ | ⟨c, hc, rfl⟩⟩ | ⟨g, hg, rfl⟩)
    · exact .entry hn
    · exact .method hn hm
    · exact .constant hn hc
    · exact .global hg
  · intro h
    cases h with
    | entry hn => exact .inl ⟨_, hn, .inl rfl⟩
    | method hn hm => exact .inl ⟨_, hn, .inr (.inl ⟨_, hm, rfl⟩)⟩
    | constant hn hc => exact .inl ⟨_, hn, .inr (.inr ⟨_, hc, rfl⟩)⟩
    | global hg => exact .inr ⟨_, hg, rfl⟩

theorem length_flatMap_searchables (l : List Namespace) :
    (l.flatMap (·.searchables)).length =
      l.length + (l.flatMap (·.methods)).length + (l.flatMap (·.constants)).length := by
  induction l with
  | nil => rfl
  | cons n rest ih =>
    have own : n.searchables.length = 1 + n.methods.length + n.constants.length := by
      simp [Namespace.searchables]
      omega
    simp only [List.flatMap_cons, List.length_append, List.length_cons, ih, own]
    omega

/-- There is one symbol for each namespace, method, constant and global variable. -/
theorem length_searchables (t : SymbolTable) :
    t.searchables.length =
      t.namespaces.length + t.stats.methods + t.stats.constants + t.stats.globals := by
  rw [searchables, List.length_append, List.length_map, length_flatMap_searchables]
  rfl

/-- The symbols in the order of the table: each namespace stands before its methods and these before
its constants, and the global variables come last. -/
def symbols (t : SymbolTable) : List Searchable :=
  (t.namespaces.map fun n =>
      let own : Searchable := ⟨n.kind.symbolKind, n.qualifiedName, n.documentation⟩
      let method (m : Method) : Searchable :=
        ⟨.method, m.qualifiedName n.qualifiedName, m.documentation⟩
      let constant (c : Constant) : Searchable :=
        ⟨.constant, n.qualifiedName ++ "::" ++ c.name, c.documentation⟩
      [own] ++ n.methods.map method ++ n.constants.map constant).flatten ++
    t.globals.map fun g => ⟨.global, g.name, g.documentation⟩

theorem searchables_eq_symbols (t : SymbolTable) : t.searchables = t.symbols := by
  rw [searchables, symbols, List.flatMap_def]
  rfl

def listedHits (t : SymbolTable) (given : List String) : List SearchHit :=
  t.searchables.filterMap (·.hit? (normalKeywords given) false)

theorem hitsOf_listedHits (t : SymbolTable) (given : List String) :
    Searchable.HitsOf given t.symbols (t.listedHits given) := by
  rw [listedHits, searchables_eq_symbols]
  exact Searchable.HitsOf.filterMap given t.symbols

theorem search_any (t : SymbolTable) (given : List String) :
    t.search given false = (t.listedHits given).mergeSort SearchHit.before := rfl

theorem search_all (t : SymbolTable) (given : List String) :
    t.search given true = (t.search given false).filter fun h =>
      (normalKeywords given).all (h.keywords.contains ·) := by
  rw [search_any, filter_mergeSort SearchHit.before_trans SearchHit.before_total, search,
    listedHits, List.filter_filterMap]
  refine congrArg (List.mergeSort · _) (congrArg (List.filterMap · _) (funext fun s => ?_))
  exact s.hit?_requireAll _

/-- Sorting keeps the order of the table among hits of one rank. -/
theorem filter_rank_search (t : SymbolTable) (given : List String) (rank : Bool × Nat × String) :
    (t.search given false).filter (·.rank = rank) =
      (t.listedHits given).filter (·.rank = rank) := by
  by_cases listed : ∃ h ∈ t.listedHits given, h.rank = rank
  · obtain ⟨h, -, rfl⟩ := listed
    have same : tied SearchHit.before h = fun g => decide (g.rank = h.rank) := by
      funext g
      rw [Bool.eq_iff_iff, SearchHit.tied_before_iff, decide_eq_true_eq]
    rw [search_any, ← same]
    exact filter_tied_mergeSort SearchHit.before_trans SearchHit.before_total h _
  · have none (l : List SearchHit) (inside : ∀ h ∈ l, h ∈ t.listedHits given) :
        l.filter (·.rank = rank) = [] :=
      List.filter_eq_nil_iff.mpr fun h hh same =>
        listed ⟨h, inside h hh, of_decide_eq_true same⟩
    rw [none (t.search given false) fun h hh => List.mem_mergeSort.mp hh,
      none (t.listedHits given) fun h hh => hh]

/-- The hits of all symbols, each once, in the order of hits. Those of one rank stand as in the
table. -/
structure Ranked (t : SymbolTable) (given : List String) (hits : List SearchHit) : Prop where
  complete : hits.Perm (t.listedHits given)
  ordered : hits.Pairwise SearchHit.Precedes
  stable : ∀ rank, hits.filter (·.rank = rank) = (t.listedHits given).filter (·.rank = rank)

theorem ranked_search (t : SymbolTable) (given : List String) :
    t.Ranked given (t.search given false) where
  complete := List.mergeSort_perm _ _
  ordered := (List.pairwise_mergeSort SearchHit.before_trans SearchHit.before_total _).imp
    SearchHit.before_iff.mp
  stable := t.filter_rank_search given

/-- A search lists one hit for each symbol that some keyword matches, with exactly the keywords that
match it, and ranks the hits, those of one rank in the order of the symbols. A search for all
keywords leaves out the hits that lack one. The keywords count as a set. -/
theorem search_ranks_matches (t : SymbolTable) (given : List String) :
    (∀ s, s ∈ t.searchables ↔ t.HasSymbol s) ∧
      t.searchables.length =
        t.namespaces.length + t.stats.methods + t.stats.constants + t.stats.globals ∧
      (∀ (s : Searchable) h, s.hit? (normalKeywords given) false = some h ↔ s.HitBy given h) ∧
      (∀ s : Searchable, s.hit? (normalKeywords given) false = none ↔
        ∀ k, IsKeyword given k → ¬ s.MatchedBy k) ∧
      t.searchables = t.symbols ∧ Searchable.HitsOf given t.symbols (t.listedHits given) ∧
      t.Ranked given (t.search given false) ∧
      (t.search given true = (t.search given false).filter fun h =>
        (normalKeywords given).all (h.keywords.contains ·)) ∧
      (∀ k, k ∈ normalKeywords given ↔ IsKeyword given k) ∧
      ∀ other, (∀ k, IsKeyword given k ↔ IsKeyword other k) → t.search given = t.search other := by
  refine ⟨fun s => mem_searchables_iff, t.length_searchables, fun s h => Searchable.hit?_some_iff,
    fun s => Searchable.hit?_eq_none_iff, t.searchables_eq_symbols, t.hitsOf_listedHits given,
    t.ranked_search given, t.search_all given, fun k => mem_normalKeywords_iff, ?_⟩
  intro other same
  funext requireAll
  rw [search, search, normalKeywords_congr same]

end SymbolTable

end RubyIndex
