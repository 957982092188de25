import RubyIndex.Proofs.NestedReferences
import RubyIndex.Proofs.OpenOwners

/-! Namespaces that extend themselves. The statement `extend self` stores the qualified name of the
namespace, and the table looks this name up again from inside the namespace, like any other
reference. There it may mean another namespace, whose methods come into the lookup instead. -/
namespace RubyIndex

/-- A line of a text stands in the body of a namespace: the lines before it leave this body open,
and none inside it. -/
def StandsIn (text path : String) (raw : List Char) (owner : String) : Prop :=
  ∃ before after r, Text.lines text.toList = before ++ raw :: after ∧
    (before.zipIdx 1).foldlM Reading.step { path := path } = .ok r ∧ r.current.1.owner = owner

/-- A line of the file extends a namespace by `self`, in its body. -/
def StubFile.ExtendsSelf (f : StubFile) (owner : String) : Prop :=
  ∃ text path raw names, StubFile.parse text path = .ok f ∧ StandsIn text path raw owner ∧
    Statement.ofLine? raw = some (.mixin .ext names) ∧ "self" ∈ names

variable {owner : String} {f : StubFile}

/-- The statement adds the name of the namespace that its body fills. -/
theorem Reading.extended_of_mixin {r r' : Reading} {names : List String} (h : r.Slotted)
    (current : r.current.1.owner = owner) (self : "self" ∈ names)
    (step : r.sketch? (.mixin .ext names) = some r') :
    ∃ (i : Nat) (n : Namespace), r'.namespaces[i]? = some n ∧ n.qualifiedName = owner ∧
      owner ∈ n.extended := by
  obtain ⟨n, found, name⟩ := (slotted_current h).2
  rw [sketch_mixin] at step
  obtain rfl := Option.some.inj step
  refine ⟨r.current.1.slot, r.current.1.mix .ext names n, ?_, ?_, ?_⟩
  · rw [edit, List.getElem?_modify, found]
    simp
  · rw [Scope.qualifiedName_mix, name, current]
  · have listed : owner ∈ names.map fun name => if name = "self" then r.current.1.owner else name :=
      List.mem_map.mpr ⟨"self", self, by rw [if_pos rfl, current]⟩
    exact List.mem_append_right n.extended listed

theorem StubFile.ExtendsSelf.parsed (h : f.ExtendsSelf owner) : f.Parsed := by
  obtain ⟨text, path, raw, names, parsed, -⟩ := h
  exact ⟨text, path, parsed⟩

/-- One of the declarations of the file has the name of its namespace among what it extends. -/
theorem StubFile.ExtendsSelf.declaration (h : f.ExtendsSelf owner) :
    ∃ d ∈ f.namespaces, d.qualifiedName = owner ∧ owner ∈ d.extended := by
  obtain ⟨text, path, raw, names, parsed, ⟨before, after, r, lines, opened, current⟩, reads,
    self⟩ := h
  have outline := StubFile.map_outline_parse text path
  rw [parsed, Statement.ofText, lines, List.filterMap_append, List.filterMap_cons_some reads,
    List.foldlM_append] at outline
  obtain ⟨last, run, finish⟩ := Option.bind_eq_some_iff.mp outline.symm
  obtain ⟨first, run_before, run⟩ := Option.bind_eq_some_iff.mp run
  rw [List.foldlM_cons] at run
  obtain ⟨next, step, run_after⟩ := Option.bind_eq_some_iff.mp run
  have here : r.outline = first := by
    have sketched := Reading.map_outline_foldlM { path := path } before 1
    rw [opened] at sketched
    exact Option.some.inj (sketched.trans run_before)
  have current : first.current.1.owner = owner := by
    rw [← here, Reading.current_outline]
    exact current
  have start := Reading.slotted_empty path
  have slotted := (Reading.foldlM_sketch? start run_before).1
  obtain ⟨i, n, found, name, listed⟩ := Reading.extended_of_mixin slotted current self step
  have sketched := Reading.sketched_of_sketch? step
  obtain ⟨n', found', name', kept⟩ :=
    (Reading.foldlM_sketch? (sketched.slotted slotted) run_after).2 i n found
  have member : n'.outline ∈ f.namespaces.map Namespace.outline := by
    have same := Reading.map_outline_of_finish? finish
    rw [StubFile.outline, List.map_map] at same
    exact same ▸ List.mem_map_of_mem (List.mem_of_getElem? found')
  obtain ⟨d, hd, same⟩ := List.mem_map.mp member
  refine ⟨d, hd, ?_, ?_⟩
  · exact (congrArg Namespace.qualifiedName same).trans (name'.trans name)
  · exact (congrArg Namespace.extended same) ▸ kept listed

namespace SymbolTable

variable {t : SymbolTable} {files : List StubFile} {n : Namespace} {m : String} {depth : Nat}

/-- What a declaration extends, the namespace of the table extends. -/
theorem exists_extends_of_mem {d : Namespace} {name : String} (hf : f ∈ files)
    (hd : d ∈ f.namespaces) (extended : name ∈ d.extended) :
    ∃ n, (ofFiles files).find? d.qualifiedName = some n ∧ name ∈ n.extended := by
  have listed : d ∈ (files.flatMap (·.namespaces)).filter (·.qualifiedName == d.qualifiedName) :=
    List.mem_filter.mpr ⟨List.mem_flatMap.mpr ⟨f, hf, hd⟩, by simp⟩
  obtain ⟨first, later, eq⟩ := List.exists_cons_of_ne_nil (List.ne_nil_of_mem listed)
  obtain ⟨n, merges, merged⟩ := mergeAll_merged first later
  refine ⟨n, by rw [(logged_ofFiles files).found, eq, merges], ?_⟩
  rw [merged.extended, mem_withNew]
  rcases List.mem_cons.mp (eq ▸ listed) with rfl | hd
  · exact .inl extended
  · exact .inr ⟨_, List.mem_map_of_mem hd, extended⟩

/-- The name of a namespace, looked up inside the namespace, is declared where nothing is further
inside. -/
theorem exists_resolveMixin_self (named : Capitalized owner) (found : t.find? owner = some n) :
    ∃ depth, t.InnermostAt (nameSegments owner) owner depth ∧
      t.resolveMixin n owner = referenceAt (nameSegments owner) owner depth := by
  have relative := absolute?_of_capitalized named
  have declared : t.has owner = true := by rw [has, found, Option.isSome_some]
  cases resolved : t.resolve? owner (some owner) with
  | none =>
    have absent := (resolve?_eq_none_iff relative).mp resolved 0 (Nat.zero_le _)
    rw [referenceAt_zero, declared] at absent
    cases absent
  | some r =>
    obtain ⟨depth, innermost, name⟩ := (resolve?_eq_some_iff relative).mp resolved
    rw [scopeSegments_some named] at innermost name
    exact ⟨depth, innermost, by
      rw [resolveMixin, qualifiedName_of_find? found, resolved, Option.getD_some, name]⟩

def Answers (t : SymbolTable) (e : LookupEntry) (m : String) : Prop :=
  ∃ x ∈ t.entryMethods e, x.method.answersTo m = true

theorem isSome_resolveMethod?_iff {name : String} {receiver : Receiver} :
    (t.resolveMethod? name m receiver).isSome = true ↔
      ∃ e ∈ t.lookupChain name receiver, t.Answers e m := by
  rw [resolveMethod?_isSome_iff]
  constructor
  · rintro ⟨x, hx, answers⟩
    obtain ⟨e, he, hx⟩ := List.mem_flatMap.mp hx
    exact ⟨e, he, x, hx, answers⟩
  · rintro ⟨e, he, x, hx, answers⟩
    exact ⟨x, List.mem_flatMap.mpr ⟨e, he, hx⟩, answers⟩

theorem answers_of_findMethod? {name : String} {receiver : Receiver} (found : t.find? name = some n)
    (answered : (n.findMethod? m receiver).isSome = true) : t.Answers ⟨name, receiver⟩ m := by
  obtain ⟨method, hm, reached⟩ := List.find?_isSome.mp answered
  rw [Method.reachedBy, Bool.and_eq_true] at reached
  refine ⟨⟨n.qualifiedName, method⟩, ?_, reached.2⟩
  rw [entryMethods, found]
  exact List.mem_map_of_mem (List.mem_filter.mpr ⟨hm, reached.1⟩)

/-- What a namespace extends brings its ancestors into the lookup for calls on the namespace. -/
theorem mem_singletonAncestors_of_extended {written : String} (named : Capitalized owner)
    (found : t.find? owner = some n) (extended : written ∈ n.extended) :
    ∀ a ∈ t.ancestors (t.resolveMixin n written), ⟨a, .inst⟩ ∈ t.singletonAncestors owner := by
  intro a ha
  rw [mem_singletonAncestors_iff, dropRoot_of_capitalized named]
  refine .inl ⟨owner, .refl, (mem_singletonEntries found).mpr (.inr ?_)⟩
  refine List.mem_map_of_mem (List.mem_flatMap.mpr ⟨written, ?_, ha⟩)
  exact List.mem_reverse.mpr extended

/-- A namespace that extends itself in the body of one of its declarations. Its name, looked up
inside it, leads to the innermost namespace with this name there, whose ancestors come into the
lookup for calls on the namespace. If none is further inside, they are its own, and so each of its
instance methods is found. Otherwise a call is found exactly if the namespace comes into the lookup
in another way, or another entry answers. -/
theorem extend_self_reaches_iff (hf : f ∈ files) (itself : f.ExtendsSelf owner) :
    ∃ n depth, (ofFiles files).find? owner = some n ∧
      (ofFiles files).InnermostAt (nameSegments owner) owner depth ∧
      (∀ a ∈ (ofFiles files).ancestors (referenceAt (nameSegments owner) owner depth),
        ⟨a, .inst⟩ ∈ (ofFiles files).singletonAncestors owner) ∧
      ∀ m, (n.findMethod? m .inst).isSome = true →
        (depth = 0 → ((ofFiles files).resolveMethod? owner m .singleton).isSome = true) ∧
        (((ofFiles files).resolveMethod? owner m .singleton).isSome = true ↔
          ⟨owner, .inst⟩ ∈ (ofFiles files).singletonAncestors owner ∨
            ∃ e ∈ (ofFiles files).singletonAncestors owner, e ≠ ⟨owner, .inst⟩ ∧
              (ofFiles files).Answers e m) := by
  have read := itself.parsed.read
  obtain ⟨d, hd, rfl, extended⟩ := itself.declaration
  have named := (read d hd).named
  obtain ⟨n, found, extended⟩ := exists_extends_of_mem hf hd extended
  obtain ⟨depth, innermost, resolved⟩ := exists_resolveMixin_self named found
  have brought := mem_singletonAncestors_of_extended named found extended
  rw [resolved] at brought
  refine ⟨n, depth, found, innermost, brought, fun m answered => ?_⟩
  have own := answers_of_findMethod? found answered
  have reaches : ((ofFiles files).resolveMethod? d.qualifiedName m .singleton).isSome = true ↔
      ⟨d.qualifiedName, .inst⟩ ∈ (ofFiles files).singletonAncestors d.qualifiedName ∨
        ∃ e ∈ (ofFiles files).singletonAncestors d.qualifiedName, e ≠ ⟨d.qualifiedName, .inst⟩ ∧
          (ofFiles files).Answers e m := by
    rw [isSome_resolveMethod?_iff]
    constructor
    · rintro ⟨e, he, answers⟩
      by_cases same : e = ⟨d.qualifiedName, .inst⟩
      · exact .inl (same ▸ he)
      · exact .inr ⟨e, he, same, answers⟩
    · rintro (listed | ⟨e, he, -, answers⟩)
      · exact ⟨_, listed, own⟩
      · exact ⟨e, he, answers⟩
  refine ⟨fun outermost => reaches.mpr (.inl (brought _ ?_)), reaches⟩
  subst outermost
  rw [referenceAt_zero, ancestors, dropRoot_of_capitalized named]
  exact mem_walk_iff.mpr .refl

def selfText : String := "module Shape\nextend self\ndef draw; end\nend"

def capturedText : String := "module Shape\nextend self\ndef draw; end\nmodule Shape; end\nend"

def selfShape : Namespace :=
  { kind := .modul, name := "Shape", qualifiedName := "Shape", extended := ["Shape"],
    methods := [{ name := "draw", line := 3 }], path := "shape.rb", line := 1 }

def selfFile : StubFile where
  path := "shape.rb"
  namespaces := [selfShape]

def capturedFile : StubFile where
  path := "shape.rb"
  namespaces :=
    [selfShape,
     { kind := .modul, name := "Shape", qualifiedName := "Shape::Shape", path := "shape.rb",
       line := 4 }]

theorem shape_draws_itself : selfFile ∈ [selfFile] ∧ selfFile.ExtendsSelf "Shape" ∧
    (selfShape.findMethod? "draw" .inst).isSome = true ∧
    ((ofFiles [selfFile]).resolveMethod? "Shape" "draw" .singleton).isSome = true := by
  have parsed : StubFile.parse selfText "shape.rb" = .ok selfFile :=
    toOption_eq_some_iff.mp (by decide)
  have itself : selfFile.ExtendsSelf "Shape" :=
    ⟨selfText, "shape.rb", "extend self".toList, ["self"], parsed,
      ⟨["module Shape".toList], ["def draw; end".toList, "end".toList], _, by decide, rfl, rfl⟩,
      by decide, List.mem_cons_self⟩
  have listed : selfFile ∈ [selfFile] := List.mem_cons_self
  obtain ⟨n, depth, found, innermost, -, calls⟩ := extend_self_reaches_iff listed itself
  obtain rfl : selfShape = n := Option.some.inj (Eq.trans (by cbv) found)
  have outermost : depth = 0 := by
    have inside : depth ≤ 1 := innermost.inside
    have declared := innermost.declared
    obtain rfl | rfl : depth = 0 ∨ depth = 1 := by omega
    · rfl
    · exact absurd declared (by decide)
  exact ⟨listed, itself, by decide, (calls "draw" (by decide)).1 outermost⟩

/-- The module inside takes the place of the one that extends itself, whose method is not found. -/
theorem captured_shape_not_drawn : capturedFile.ExtendsSelf "Shape" ∧
    ((ofFiles [capturedFile]).find? "Shape") = some selfShape ∧
    (selfShape.findMethod? "draw" .inst).isSome = true ∧
    (ofFiles [capturedFile]).resolveMethod? "Shape" "draw" .singleton = none := by
  have parsed : StubFile.parse capturedText "shape.rb" = .ok capturedFile :=
    toOption_eq_some_iff.mp (by decide)
  have itself : capturedFile.ExtendsSelf "Shape" :=
    ⟨capturedText, "shape.rb", "extend self".toList, ["self"], parsed,
      ⟨["module Shape".toList],
        ["def draw; end".toList, "module Shape; end".toList, "end".toList], _, by decide, rfl, rfl⟩,
      by decide, List.mem_cons_self⟩
  exact ⟨itself, by decide, by decide, by cbv⟩

end SymbolTable

end RubyIndex
