import RubyIndex.Proofs.MixinStatements
import RubyIndex.Proofs.NestedReferences
import RubyIndex.Proofs.OutlinedTables
import RubyIndex.Proofs.SingletonChain

/-! The order of modules that one statement mixes in. Ruby mixes them in from the right, so that the
first that is listed is searched first. Here they are mixed in from the left, as if there were a
statement for each, and the last is searched first. -/
namespace RubyIndex

def MixinKind.receiver : MixinKind → Receiver
  | .ext => .singleton
  | .incl | .prep => .inst

/-- Both texts are refused, or lookups for a receiver go through the same chains, whatever files are
loaded beside them. -/
def SameChains (receiver : Receiver) (text other : String) : Prop :=
  ∀ path,
    (StubFile.parse text path).toOption.isSome = (StubFile.parse other path).toOption.isSome ∧
      ∀ f g, StubFile.parse text path = .ok f → StubFile.parse other path = .ok g →
        ∀ before after name,
          (SymbolTable.ofFiles (before ++ f :: after)).lookupChain name receiver =
            (SymbolTable.ofFiles (before ++ g :: after)).lookupChain name receiver

theorem sameChains_of_outline {text other : String}
    (same : ∀ path, (StubFile.parse text path).toOption.map StubFile.outline =
      (StubFile.parse other path).toOption.map StubFile.outline) (receiver : Receiver) :
    SameChains receiver text other := by
  intro path
  refine ⟨by simpa using congrArg Option.isSome (same path), ?_⟩
  intro f g read read' before after name
  have outlines : f.outline = g.outline := by
    simpa [read, read', Except.toOption] using same path
  have files : (before ++ f :: after).map StubFile.outline =
      (before ++ g :: after).map StubFile.outline := by
    simp [outlines]
  rw [SymbolTable.lookupChain_eq_of_outline files]

theorem Text.isLineEnd_of_isBlank {c : Char} (h : isBlank c = false) : isLineEnd c = false := by
  simp only [isBlank, isLineEnd, Bool.or_eq_false_iff, Bool.and_eq_false_iff,
    decide_eq_false_iff_not, beq_eq_false_iff_ne] at h ⊢
  omega

theorem unbroken_commas {names : List String} (modules : ∀ name ∈ names, IsModuleName name) :
    ∀ c ∈ (", ".intercalate names).toList, Text.isLineEnd c = false := by
  have unbroken {name : String} (h : IsModuleName name) :
      ∀ c ∈ name.toList, Text.isLineEnd c = false := fun c hc =>
    Text.isLineEnd_of_isBlank (h.unbroken c hc).1
  induction names with
  | nil => simp
  | cons first rest ih =>
    obtain ⟨leading, others⟩ := List.forall_mem_cons.mp modules
    cases rest with
    | nil => simpa using unbroken leading
    | cons second rest =>
      rw [String.intercalate_cons_cons, String.toList_append, String.toList_append]
      exact List.forall_mem_append.mpr
        ⟨List.forall_mem_append.mpr ⟨unbroken leading, by simp [Text.isLineEnd]⟩, ih others⟩

theorem unbroken_statement (kind : MixinKind) {names : List String}
    (modules : ∀ name ∈ names, IsModuleName name) :
    ∀ c ∈ (kind.statement names).toList, Text.isLineEnd c = false := by
  rw [Statement.toList_statement]
  refine List.forall_mem_append.mpr ⟨?_, List.forall_mem_cons.mpr ⟨by decide, ?_⟩⟩
  · cases kind <;> simp [MixinKind.word, Text.isLineEnd]
  · exact unbroken_commas modules

structure PlainClass (C : String) : Prop where
  opens : Statement.ofLine? ("class " ++ C).toList =
    some (.openNamespace { kind := .klass, path := C })
  capital : Capitalized C
  segments : nameSegments C = [C]
  unbroken : ∀ c ∈ ("class " ++ C).toList, Text.isLineEnd c = false

def mixingClass (C : String) (kind : MixinKind) (names : List String) (path : String) : Namespace :=
  ({ slot := 0, owner := C } : Scope).mix kind names
    { kind := .klass, name := C, qualifiedName := C, path := path }

def mixingText (C : String) (statements : List String) : String :=
  Text.ofLines (("class " ++ C).toList :: statements.map String.toList ++ ["end".toList])

section Mixing

variable {C : String} {kind : MixinKind} {names : List String}

theorem lines_mixingText (plain : PlainClass C) {statements : List String}
    (unbroken : ∀ s ∈ statements, ∀ c ∈ s.toList, Text.isLineEnd c = false) :
    Text.lines (mixingText C statements).toList =
      ("class " ++ C).toList :: statements.map String.toList ++ ["end".toList] := by
  refine Text.lines_ofLines ?_
  rw [List.cons_append]
  refine List.forall_mem_cons.mpr ⟨plain.unbroken, List.forall_mem_append.mpr
    ⟨List.forall_mem_map.mpr unbroken, ?_⟩⟩
  simp [Text.isLineEnd]

theorem sketch_mixingClass (plain : PlainClass C) (kind : MixinKind) (names : List String)
    (path : String) :
    ([.openNamespace { kind := .klass, path := C }, .mixin kind names, .close].foldlM
        Reading.sketch? { path := path }).bind Reading.finish? =
      some { path := path, namespaces := [mixingClass C kind names path] } := by
  have own : Header.namespace { kind := .klass, path := C } none path 0 none =
      { kind := .klass, name := C, qualifiedName := C, path := path } := by
    unfold Header.namespace
    simp only [Header.qualifiedName_eq, absolute?_of_capitalized plain.capital, plain.segments]
    rfl
  have opened : ({ path := path } : Reading).openNamespace { kind := .klass, path := C } 0 none =
      { path := path
        namespaces := [{ kind := .klass, name := C, qualifiedName := C, path := path }]
        scopes := [{ slot := 0, owner := C }] } := by
    rw [Reading.openNamespace_eq]
    simp only [List.head?_nil, Option.map_none, own]
    rfl
  have first : ({ path := path } : Reading).sketch?
      (.openNamespace { kind := .klass, path := C }) = some _ := congrArg some opened
  rw [List.foldlM_cons, first]
  cases kind <;> rfl

theorem map_outline_mixingText (plain : PlainClass C) (kind : MixinKind) (listed : names ≠ [])
    (modules : ∀ name ∈ names, IsModuleName name) (path : String) :
    (StubFile.parse (mixingText C [kind.statement names]) path).toOption.map StubFile.outline =
      some { path := path, namespaces := [mixingClass C kind names path] } := by
  have lines := lines_mixingText plain
    (List.forall_mem_singleton.mpr (unbroken_statement kind modules))
  have mixes := Statement.ofLine?_mixin listed modules
    (Statement.trim_statement kind listed modules)
  have closes : Statement.ofLine? "end".toList = some .close := rfl
  have statements : Statement.ofText (mixingText C [kind.statement names]) =
      [.openNamespace { kind := .klass, path := C }, .mixin kind names, .close] := by
    rw [Statement.ofText, lines]
    simp only [List.map_cons, List.map_nil, List.cons_append, List.nil_append,
      List.filterMap_cons_some plain.opens, List.filterMap_cons_some mixes,
      List.filterMap_cons_some closes, List.filterMap_nil]
  rw [StubFile.map_outline_parse, statements, sketch_mixingClass plain]

end Mixing

namespace SymbolTable

theorem find?_addEntries (p : LookupEntry → Bool) (entries more : List LookupEntry) :
    (addEntries entries more).find? p = (entries ++ more).find? p := by
  induction more using List.reverseRecOn with
  | nil => simp [addEntries]
  | append_singleton more e ih =>
    rw [addEntries_concat, ← List.append_assoc, List.find?_append]
    split
    · next listed =>
      rw [ih]
      cases found : (entries ++ more).find? p with
      | some d => rfl
      | none =>
        have fails := List.find?_eq_none.mp found e listed
        rw [List.find?_cons_of_neg fails]
        rfl
    · rw [List.find?_append, ih]

section Mixing

variable {t : SymbolTable} {C last : String} {kind : MixinKind} {names before : List String}
  {n : Namespace} {todo : List Visit} {visited : List String}

/-- The table of a file that declares one class alone. -/
theorem find?_alone (path : String) (n : Namespace) (name : String) :
    (ofFiles [{ path := path, namespaces := [n] }]).find? name =
      if n.qualifiedName = name then some n else none := by
  rw [(logged_ofFiles _).found]
  by_cases same : n.qualifiedName = name <;> simp [same, mergeAll]

/-- What is written stays as it is in a class that stands alone. -/
theorem resolveMixin_alone (alone : ∀ name, t.has name = true → name = C) (plain : PlainClass C)
    (own : n.qualifiedName = C) (other : dropRoot last ≠ C) : t.resolveMixin n last = last := by
  have absent {name : String} (h : name ≠ C) : t.has name = false := by
    by_contra declared
    exact h (alone name (by simpa using declared))
  have unresolved : t.resolve? last (some C) = none := by
    cases root : absolute? last with
    | some name =>
      rw [dropRoot, root, Option.getD_some] at other
      simp [resolve?, root, absent other]
    | none =>
      rw [dropRoot, root, Option.getD_none] at other
      have outer : last ≠ C := other
      have inner : C ++ "::" ++ last ≠ C := by
        intro same
        have lengths := congrArg String.length same
        have colons : "::".length = 2 := rfl
        simp only [String.length_append, colons] at lengths
        omega
      rw [resolve?_eq_none_iff root, scopeSegments_some plain.capital, plain.segments]
      intro d inside
      obtain rfl | rfl : d = 0 ∨ d = 1 := by simp at inside; omega
      · exact absent (by rwa [referenceAt_zero])
      · exact absent (by simpa [referenceAt, joinSegments, String.intercalate_cons_cons])
  rw [resolveMixin, own, unresolved, Option.getD_none]

theorem visits_included (own : n.qualifiedName = C) (prepended : n.prepended = [])
    (included : n.included = before ++ [last]) :
    ∃ todo, t.visits n = .list C :: .enter (t.resolveMixin n last) :: todo := by
  refine ⟨before.reverse.map (fun m => .enter (t.resolveMixin n m)) ++
    (t.superclassOf n).toList.map .enter, ?_⟩
  rw [visits, own, prepended, included, List.reverse_append]
  rfl

theorem visits_prepended (prepended : n.prepended = before ++ [last]) :
    ∃ todo, t.visits n = .enter (t.resolveMixin n last) :: todo := by
  rw [visits, prepended, List.reverse_append]
  exact ⟨_, rfl⟩

theorem extensionEntries_extended (extended : n.extended = before ++ [last]) :
    ∃ rest, t.extensionEntries n =
      (t.ancestors (t.resolveMixin n last)).map (⟨·, .inst⟩) ++ rest := by
  rw [extensionEntries, extended, List.reverse_append, List.reverse_singleton,
    List.singleton_append, List.flatMap_cons, List.map_append]
  exact ⟨_, rfl⟩

theorem walk_unknown (todo : List Visit) (fresh : last ∉ visited) (absent : t.find? last = none) :
    ∃ rest, t.walk visited (.enter last :: todo) = last :: rest :=
  ⟨_, walk_enter_absent (by simpa using fresh) absent⟩

theorem mixed_modules {s : Scope} (modules : ∀ name ∈ names, IsModuleName name) :
    (names.map fun name => if name = "self" then s.owner else name) = names := by
  refine (List.map_congr_left fun name hname => ?_).trans (List.map_id names)
  exact if_neg (modules name hname).ne_self

/-- Of the modules that a class alone mixes in, calls come to the last first. -/
theorem first_of_lookupChain (plain : PlainClass C) (kind : MixinKind)
    (modules : ∀ name ∈ before ++ [last], IsModuleName name) (other : dropRoot last ≠ C)
    (path : String) :
    (((ofFiles [{ path := path
                  namespaces := [mixingClass C kind (before ++ [last]) path] }]).lookupChain C
        kind.receiver).find? (·.owner ≠ C)).map (fun e => dropRoot e.owner) =
      some (dropRoot last) := by
  have own : (mixingClass C kind (before ++ [last]) path).qualifiedName = C := by
    cases kind <;> rfl
  have find (name : String) := find?_alone path (mixingClass C kind (before ++ [last]) path) name
  have listed : (before ++ [last]).map (fun name => if name = "self" then C else name) =
      before ++ [last] := mixed_modules (s := { slot := 0, owner := C }) modules
  rw [own] at find
  generalize ofFiles _ = t at find ⊢
  generalize mixing : mixingClass C kind (before ++ [last]) path = n at own find
  have found := (find C).trans (if_pos rfl)
  have unknown {name : String} (h : name ≠ C) : t.find? name = none :=
    (find name).trans (if_neg h.symm)
  have apart : last ≠ C := by
    rintro rfl
    exact other (dropRoot_of_capitalized plain.capital)
  have alone : ∀ name, t.has name = true → name = C := by
    intro name declared
    by_contra h
    simp [has, unknown h] at declared
  have resolved := resolveMixin_alone alone plain own other
  have walked : t.ancestors C = t.walk [C] (t.visits n ++ []) := by
    rw [ancestors, dropRoot_of_capitalized plain.capital, walk_enter_found (by simp) found]
  cases kind with
  | incl =>
    subst mixing
    obtain ⟨todo, visits⟩ := visits_included own rfl listed
    obtain ⟨rest, onward⟩ := walk_unknown (todo ++ [])
      (fun seen => apart (List.mem_singleton.mp seen)) (unknown apart)
    have chain : t.ancestors C = C :: last :: rest := by
      rw [walked, visits, resolved, List.cons_append, walk, List.cons_append, onward]
    simp [lookupChain, MixinKind.receiver, chain, apart]
  | prep =>
    have prepended : n.prepended = before ++ [last] := by rw [← mixing]; exact listed
    obtain ⟨todo, visits⟩ := visits_prepended (t := t) prepended
    obtain ⟨rest, onward⟩ := walk_unknown (todo ++ [])
      (fun seen => apart (List.mem_singleton.mp seen)) (unknown apart)
    have chain : t.ancestors C = last :: rest := by
      rw [walked, visits, resolved, List.cons_append, onward]
    simp [lookupChain, MixinKind.receiver, chain, apart]
  | ext =>
    have extended : n.extended = before ++ [last] := by rw [← mixing]; exact listed
    obtain ⟨more, entries⟩ := extensionEntries_extended (t := t) extended
    obtain ⟨rest, onward⟩ := walk_unknown [] List.not_mem_nil (unknown other)
    obtain ⟨chain, follows, whole⟩ := t.singletonAncestors_eq_chain C
    rw [dropRoot_of_capitalized plain.capital] at follows
    obtain ⟨others, rfl⟩ := follows.eq_cons List.not_mem_nil
    have first : t.ancestors last = dropRoot last :: rest := onward
    have root := dropRoot_of_capitalized (modules last (by simp)).capital
    rw [MixinKind.receiver, lookupChain, whole, find?_addEntries, List.flatMap_cons,
      singletonEntries_found found, entries, resolved, first]
    simp [other, root]

/-- The same of any file with that outline. -/
theorem first_of_outline {f : StubFile} {path : String} (plain : PlainClass C)
    (modules : ∀ name ∈ before ++ [last], IsModuleName name) (other : dropRoot last ≠ C)
    (outline : f.outline =
      { path := path, namespaces := [mixingClass C kind (before ++ [last]) path] }) :
    (((ofFiles [f]).lookupChain C kind.receiver).find? (·.owner ≠ C)).map
      (fun e => dropRoot e.owner) = some (dropRoot last) := by
  rw [← (outlines_ofFiles [f]).lookupChain_eq, List.map_singleton, outline]
  exact first_of_lookupChain plain kind modules other path

theorem mixinsApart_mixingText (plain : PlainClass C) (kind : MixinKind)
    {together apart : List String} (listed : together ≠ [])
    (modules : ∀ name ∈ together, IsModuleName name) (others : ∀ name ∈ apart, IsModuleName name) :
    MixinsApart kind together apart (mixingText C [kind.statement together])
      (mixingText C (apart.map fun name => kind.statement [name])) := by
  have single : ∀ name ∈ apart, ∀ m ∈ [name], IsModuleName m := fun name hname =>
    List.forall_mem_singleton.mpr (others name hname)
  refine ⟨[("class " ++ C).toList], (kind.statement together).toList,
    apart.map fun name => (kind.statement [name]).toList, ["end".toList], ?_, ?_,
    Statement.trim_statement kind listed modules, ?_⟩
  · rw [lines_mixingText plain (List.forall_mem_singleton.mpr (unbroken_statement kind modules))]
    rfl
  · rw [lines_mixingText plain (List.forall_mem_map.mpr fun name hname =>
      unbroken_statement kind (single name hname)), List.map_map]
    rfl
  · rw [List.forall₂_map_left_iff, List.forall₂_same]
    exact fun name hname =>
      Statement.trim_statement kind (List.cons_ne_nil name []) (single name hname)

theorem exists_plainClass (x y : String) : ∃ C, PlainClass C ∧ x ≠ C ∧ y ≠ C := by
  have plain : ∀ C ∈ ["A", "B", "C"], PlainClass C := by
    intro C hC
    simp only [List.mem_cons, List.not_mem_nil, or_false] at hC
    rcases hC with rfl | rfl | rfl <;>
      exact ⟨by rfl, ⟨_, [], rfl, by decide⟩, by rfl, by simp [Text.isLineEnd]⟩
  by_contra none
  have taken : ∀ C ∈ ["A", "B", "C"], x = C ∨ y = C := by
    intro C hC
    by_contra free
    rw [not_or] at free
    exact none ⟨C, plain C hC, free⟩
  simp only [List.forall_mem_cons] at taken
  grind

/-- If the modules of a statement may be mixed in from the right as well, the first and the last of
them are the same. -/
theorem first_eq_last_of_reversed {first : String} {rest : List String}
    (modules : ∀ name ∈ names, IsModuleName name) (start : names = first :: rest)
    (ending : names = before ++ [last])
    (reversed : ∀ text other, MixinsApart kind names names.reverse text other →
      SameChains kind.receiver text other) : dropRoot last = dropRoot first := by
  obtain ⟨C, plain, other, other'⟩ := exists_plainClass (dropRoot last) (dropRoot first)
  have listed : names ≠ [] := by simp [start]
  have turned : names.reverse = rest.reverse ++ [first] := by rw [start, List.reverse_cons]
  have listed' : names.reverse ≠ [] := by simpa using listed
  have modules' : ∀ name ∈ names.reverse, IsModuleName name := by simpa using modules
  have apart := mixinsApart_mixingText plain kind listed modules modules'
  have apart' := mixinsApart_mixingText plain kind listed' modules' modules'
  obtain ⟨f, parsed, outline⟩ := Option.map_eq_some_iff.mp
    (map_outline_mixingText plain kind listed modules "")
  obtain ⟨g, parsed', outline'⟩ := Option.map_eq_some_iff.mp
    ((StubFile.map_outline_parse_mixinsApart listed' modules' apart' "").symm.trans
      (map_outline_mixingText plain kind listed' modules' ""))
  have same := (reversed _ _ apart "").2 f g (toOption_eq_some_iff.mp parsed)
    (toOption_eq_some_iff.mp parsed') [] [] C
  have searched := first_of_outline plain (ending ▸ modules) other (ending ▸ outline)
  have searched' := first_of_outline plain (turned ▸ modules') other' (turned ▸ outline')
  rw [List.nil_append, List.nil_append] at same
  rw [same, searched'] at searched
  exact (Option.some.inj searched).symm

end Mixing

/-- A statement with several modules is a statement for each, in the order in which they are listed,
for all lookups and whatever is declared around it. That is the order of Ruby, in which the first of
them is mixed in last, only of a statement with a single module. -/
theorem split_statement_iff_single {kind : MixinKind} {names : List String} (listed : names ≠ [])
    (modules : ∀ name ∈ names, IsModuleName name) (distinct : (names.map dropRoot).Nodup) :
    (∀ receiver text other, MixinsApart kind names names text other →
        SameChains receiver text other) ∧
      ((∀ text other, MixinsApart kind names names.reverse text other →
          SameChains kind.receiver text other) ↔ names.length = 1) := by
  have inOrder : ∀ receiver text other, MixinsApart kind names names text other →
      SameChains receiver text other := fun receiver text other apart =>
    sameChains_of_outline (StubFile.map_outline_parse_mixinsApart listed modules apart) receiver
  refine ⟨inOrder, ?_, ?_⟩
  · intro reversed
    obtain ⟨first, rest, start⟩ := List.exists_cons_of_ne_nil listed
    have ends := first_eq_last_of_reversed modules start
      (List.dropLast_append_getLast listed).symm reversed
    cases rest with
    | nil => rw [start, List.length_singleton]
    | cons second rest =>
      subst start
      rw [List.getLast_cons (List.cons_ne_nil second rest)] at ends
      have again : dropRoot first ∈ (second :: rest).map dropRoot :=
        ends ▸ List.mem_map_of_mem (List.getLast_mem _)
      exact absurd again (List.nodup_cons.mp distinct).1
  · intro single
    obtain ⟨name, rfl⟩ := List.length_eq_one_iff.mp single
    exact inOrder kind.receiver

def paintedText : String := "class Shape\ninclude Draw, Paint\nend"

def listedText : String := "class Shape\ninclude Draw\ninclude Paint\nend"

def turnedText : String := "class Shape\ninclude Paint\ninclude Draw\nend"

theorem painted_as_listed :
    MixinsApart .incl ["Draw", "Paint"] ["Draw", "Paint"] paintedText listedText ∧
      SameChains .inst paintedText listedText ∧
      ¬ ∀ text other, MixinsApart .incl ["Draw", "Paint"] ["Draw", "Paint"].reverse text other →
        SameChains MixinKind.incl.receiver text other := by
  have apart : MixinsApart .incl ["Draw", "Paint"] ["Draw", "Paint"] paintedText listedText :=
    ⟨["class Shape".toList], "include Draw, Paint".toList,
      ["include Draw".toList, "include Paint".toList], ["end".toList], by decide, by decide,
      by decide, .cons (by decide) (.cons (by decide) .nil)⟩
  have modules : ∀ name ∈ ["Draw", "Paint"], IsModuleName name :=
    List.forall_mem_cons.mpr ⟨⟨⟨'D', _, rfl, rfl⟩, by simp [Text.isBlank]⟩,
      List.forall_mem_singleton.mpr ⟨⟨'P', _, rfl, rfl⟩, by simp [Text.isBlank]⟩⟩
  obtain ⟨inOrder, reversed⟩ :=
    @split_statement_iff_single .incl ["Draw", "Paint"] (List.cons_ne_nil _ _) modules (by decide)
  refine ⟨apart, inOrder .inst _ _ apart, fun turned => ?_⟩
  exact absurd (reversed.mp turned) (by decide)

def paintedFile (included : List String) : StubFile where
  path := "shape.rb"
  namespaces :=
    [{ kind := .klass, name := "Shape", qualifiedName := "Shape", included := included,
       path := "shape.rb", line := 1 }]

/-- The module that is listed first comes after the other one. -/
theorem first_listed_searched_last :
    MixinsApart .incl ["Draw", "Paint"] ["Draw", "Paint"].reverse paintedText turnedText ∧
      (StubFile.parse paintedText "shape.rb").toOption = some (paintedFile ["Draw", "Paint"]) ∧
      (StubFile.parse turnedText "shape.rb").toOption = some (paintedFile ["Paint", "Draw"]) ∧
      (ofFiles [paintedFile ["Draw", "Paint"]]).ancestors "Shape" =
        ["Shape", "Paint", "Draw", "Object"] ∧
      (ofFiles [paintedFile ["Paint", "Draw"]]).ancestors "Shape" =
        ["Shape", "Draw", "Paint", "Object"] := by
  have apart : MixinsApart .incl ["Draw", "Paint"] ["Draw", "Paint"].reverse paintedText
      turnedText :=
    ⟨["class Shape".toList], "include Draw, Paint".toList,
      ["include Paint".toList, "include Draw".toList], ["end".toList], by decide, by decide,
      by decide, .cons (by decide) (.cons (by decide) .nil)⟩
  exact ⟨apart, by decide, by decide, by cbv, by cbv⟩

end SymbolTable

end RubyIndex
