import RubyIndex.Proofs.CompletionLookup
import RubyIndex.Proofs.EnclosingSuperclasses
import RubyIndex.Proofs.KeptSnapshots

/-! Suggestions in place of names that are not found. Names of namespaces are suggested from the
table, and lookup leaves out a leading `::`, with which no name in a table of read files begins.
Names of methods are suggested from the list of methods that may be called, and a call goes along
the chain that the list is made from. So what is suggested is found. -/
namespace RubyIndex

namespace Text.Similarity

theorem text_score (target candidate : String) : (score target candidate).text = candidate := by
  unfold score
  dsimp only
  split <;> rfl

theorem mem_of_mem_closest {limit : Nat} {target text : String} {candidates : List String}
    (h : text ∈ closest limit target candidates) : text ∈ candidates := by
  obtain ⟨scored, listed, rfl⟩ := List.mem_map.mp h
  have close := List.mem_mergeSort.mp (List.mem_of_mem_take listed)
  obtain ⟨candidate, member, rfl⟩ := List.mem_map.mp (List.mem_of_mem_filter close)
  rwa [text_score]

end Text.Similarity

namespace SymbolTable

variable {t : SymbolTable} {files : List StubFile} {name called : String} {receiver : Receiver}

/-- The namespaces of a table are found under their names as they are. -/
theorem get?_of_mem_names (parsed : ∀ f ∈ files, f.Parsed) (h : name ∈ (ofFiles files).names) :
    ∃ n, (ofFiles files).get? name = some n ∧ n.qualifiedName = name := by
  have listed := mem_names_iff.mp h
  obtain ⟨n, found⟩ := Option.isSome_iff_exists.mp listed
  rw [get?, dropRoot_of_capitalized (capitalized_of_has parsed listed)]
  exact ⟨n, found, qualifiedName_of_find? found⟩

/-- A call by the name or an alias of a listed method comes to a method, though maybe to another. -/
theorem resolves_of_mem_callableNames (h : called ∈ Server.callableNames t name receiver) :
    ∃ x, t.resolveMethod? name called receiver = some x ∧ x.method.answersTo called = true := by
  obtain ⟨listed, available, named⟩ := List.mem_flatMap.mp h
  have answers : listed.method.answersTo called = true := by
    rcases List.mem_cons.mp named with rfl | aliased
    · simp [Method.answersTo]
    · simp [Method.answersTo, aliased]
  have nearest := mem_availableMethods_iff.mp available
  obtain ⟨x, resolved⟩ := Option.isSome_iff_exists.mp
    (resolveMethod?_isSome_iff.mpr ⟨listed, nearest.mem, answers⟩)
  have first := resolved
  rw [resolveMethod?_eq] at first
  exact ⟨x, resolved, by simpa using List.find?_some first⟩

end SymbolTable

namespace Server

variable {s : Snapshot} {limit : Int} {lookup : Lookup} {owner called : String}
  {receiver : Receiver} {n : Namespace}

theorem mem_of_mem_suggest {name suggested : String} {candidates : List String}
    (h : suggested ∈ suggest name candidates) : suggested ∈ candidates :=
  Text.Similarity.mem_of_mem_closest h

theorem require_of_found (found : s.table.get? owner = some n) : require s owner = .ok n := by
  rw [require, found]

theorem require_of_absent (absent : s.table.get? owner = none) : require s owner =
    .error (.namespaceNotFound owner s.version (suggest owner s.table.names)) := by
  rw [require, absent]

namespace Lookup

def owner? : Lookup → Option String
  | .describe name _ => some name
  | .method owner _ _ => some owner
  | .complete _ owner _ _ => owner
  | _ => none

def withOwner (name : String) : Lookup → Lookup
  | .describe _ inherited => .describe name inherited
  | .method _ called receiver => .method name called receiver
  | .complete start _ receiver count => .complete start (some name) receiver count
  | lookup => lookup

def withMethod (name : String) : Lookup → Lookup
  | .method owner _ receiver => .method owner name receiver
  | lookup => lookup

theorem owner?_withOwner (named : lookup.owner? = some owner) (name : String) :
    (lookup.withOwner name).owner? = some name := by
  cases lookup with
  | describe | method | complete => rfl
  | places | search | lint => cases named

theorem eq_method_of_withOwner (named : lookup.owner? = some owner) {name : String}
    (same : lookup.withOwner name = .method name called receiver) :
    lookup = .method owner called receiver := by
  cases lookup with
  | method =>
    cases named
    cases same
    rfl
  | describe | complete | places | search | lint => cases same

theorem answer_method_found (limit : Int) (found : s.table.get? owner = some n) {x : MethodMatch}
    (resolved : s.table.resolveMethod? n.qualifiedName called receiver = some x) :
    ∃ info, (method owner called receiver).answer limit s = .ok (.method info) ∧
      info.asked = n.qualifiedName ∧ info.found.owner = x.owner ∧
      info.found.method.answersTo = x.method.answersTo := by
  rw [answer, methodInfo, require_of_found found]
  simp only [bind, Except.bind, resolved]
  exact ⟨_, rfl, rfl, rfl, rfl⟩

theorem answer_method_missing (limit : Int) (found : s.table.get? owner = some n)
    (missing : s.table.resolveMethod? n.qualifiedName called receiver = none) :
    (method owner called receiver).answer limit s =
      .error (.methodNotFound n.qualifiedName called receiver s.version
        (suggest called (callableNames s.table n.qualifiedName receiver))) := by
  rw [answer, methodInfo, require_of_found found]
  simp only [bind, Except.bind, missing]
  rfl

/-- How a lookup is answered. There are errors of three kinds, for a namespace, a method and a
rule that is not found. -/
theorem answer_cases (lookup : Lookup) (limit : Int) (s : Snapshot) :
    (∃ found, lookup.answer limit s = .ok found) ∨
      (∃ owner, lookup.owner? = some owner ∧ s.table.get? owner = none ∧
        lookup.answer limit s =
          .error (.namespaceNotFound owner s.version (suggest owner s.table.names))) ∨
      (∃ owner called receiver n, lookup = .method owner called receiver ∧
        s.table.get? owner = some n ∧
        lookup.answer limit s = .error (.methodNotFound n.qualifiedName called receiver s.version
          (suggest called (callableNames s.table n.qualifiedName receiver)))) ∨
      lookup.owner? = none ∧ ∃ unknown, lookup.answer limit s = .error (.unknownRule unknown) := by
  cases lookup with
  | describe owner inherited =>
    rw [answer, namespaceInfo]
    cases found : s.table.get? owner with
    | none =>
      rw [require_of_absent found]
      exact .inr (.inl ⟨owner, rfl, found, rfl⟩)
    | some n =>
      rw [require_of_found found]
      exact .inl ⟨_, rfl⟩
  | method owner called receiver =>
    cases found : s.table.get? owner with
    | none =>
      rw [answer, methodInfo, require_of_absent found]
      exact .inr (.inl ⟨owner, rfl, found, rfl⟩)
    | some n =>
      cases resolved : s.table.resolveMethod? n.qualifiedName called receiver with
      | some x =>
        obtain ⟨info, answered, -⟩ := answer_method_found limit found resolved
        exact .inl ⟨_, answered⟩
      | none =>
        have missing := answer_method_missing limit found resolved
        exact .inr (.inr (.inl ⟨owner, called, receiver, n, rfl, found, missing⟩))
  | complete start owner receiver count =>
    -- No namespace is asked for after a dollar sign, nor if the name is empty.
    rw [answer, completions]
    by_cases global : startsWith "$" start = true
    · rw [if_pos global]
      exact .inl ⟨_, rfl⟩
    · rw [if_neg global]
      cases named : owner.filter (· != "") with
      | none => exact .inl ⟨_, rfl⟩
      | some name =>
        obtain ⟨rfl, -⟩ := Option.filter_eq_some_iff.mp named
        cases found : s.table.get? name with
        | none =>
          simp only [require_of_absent found]
          exact .inr (.inl ⟨name, rfl, found, rfl⟩)
        | some n =>
          simp only [require_of_found found]
          exact .inl ⟨_, rfl⟩
  | places | search => exact .inl ⟨_, rfl⟩
  | lint rules disabled =>
    rw [answer]
    cases Lint.lint s rules disabled with
    | ok report => exact .inl ⟨_, rfl⟩
    | error unknown => exact .inr (.inr (.inr ⟨rfl, unknown, rfl⟩))

/-- A namespace that exists is described or completed, and a call on it may still fail. -/
theorem answer_of_found (limit : Int) (named : lookup.owner? = some owner)
    (found : s.table.get? owner = some n) :
    (∃ info, lookup.answer limit s = .ok info) ∨
      ∃ called receiver suggestions, lookup = .method owner called receiver ∧
        lookup.answer limit s =
          .error (.methodNotFound n.qualifiedName called receiver s.version suggestions) := by
  rcases answer_cases lookup limit s with answered | ⟨other, same, absent, -⟩ |
    ⟨other, called, receiver, m, rfl, known, missing⟩ | ⟨unnamed, -⟩
  · exact .inl answered
  · obtain rfl := Option.some.inj (same.symm.trans named)
    rw [found] at absent
    cases absent
  · obtain rfl : other = owner := Option.some.inj named
    obtain rfl := Option.some.inj (known.symm.trans found)
    exact .inr ⟨called, receiver, _, rfl, missing⟩
  · rw [unnamed] at named
    cases named

theorem of_namespaceNotFound {version : Version} {suggestions : List String}
    (failed : lookup.answer limit s = .error (.namespaceNotFound owner version suggestions)) :
    lookup.owner? = some owner ∧ version = s.version ∧
      suggestions = suggest owner s.table.names := by
  rcases answer_cases lookup limit s with ⟨_, answered⟩ | ⟨other, named, -, answered⟩ |
    ⟨_, _, _, _, _, -, answered⟩ | ⟨-, _, answered⟩
  all_goals
    rw [answered] at failed
    cases failed
  exact ⟨named, rfl, rfl⟩

theorem of_methodNotFound {version : Version} {suggestions : List String}
    (failed : lookup.answer limit s =
      .error (.methodNotFound owner called receiver version suggestions)) :
    ∃ written n, lookup = .method written called receiver ∧ s.table.get? written = some n ∧
      owner = n.qualifiedName ∧ version = s.version ∧
      suggestions = suggest called (callableNames s.table n.qualifiedName receiver) := by
  rcases answer_cases lookup limit s with ⟨_, answered⟩ | ⟨_, -, -, answered⟩ |
    ⟨written, _, _, n, same, found, answered⟩ | ⟨-, _, answered⟩
  all_goals
    rw [answered] at failed
    cases failed
  exact ⟨written, n, same, found, rfl, rfl, rfl⟩

/-- Suggestions in the answer to a lookup can be followed. With a suggested namespace the lookup is
answered, unless it asks for a method and the namespace lacks that. With a suggested method it is
answered with one of that name. -/
structure Followed (lookup : Lookup) (answer : Except ServerError Answer)
    (again : Lookup → Except ServerError Answer) : Prop where
  namespaces : ∀ name version suggestions,
    answer = .error (.namespaceNotFound name version suggestions) → ∀ suggested ∈ suggestions,
      (∃ found, again (lookup.withOwner suggested) = .ok found) ∨
        ∃ called receiver others, lookup = .method name called receiver ∧
          again (lookup.withOwner suggested) =
            .error (.methodNotFound suggested called receiver version others)
  methods : ∀ owner called receiver version suggestions,
    answer = .error (.methodNotFound owner called receiver version suggestions) →
      ∀ suggested ∈ suggestions, ∃ info,
        again (lookup.withMethod suggested) = .ok (.method info) ∧ info.asked = owner ∧
          info.found.method.answersTo suggested = true

theorem followed_in_snapshot (parsed : s.Parsed) (lookup : Lookup) (limit : Int) :
    lookup.Followed (lookup.answer limit s) (·.answer limit s) := by
  constructor
  · intro name version suggestions failed suggested listed
    obtain ⟨named, rfl, rfl⟩ := of_namespaceNotFound failed
    -- The suggestion is a name as the table has it, which need not be the name as it is looked up.
    have member := mem_of_mem_suggest listed
    rw [parsed.table] at member
    obtain ⟨n, found, rfl⟩ := SymbolTable.get?_of_mem_names parsed.files member
    rw [← parsed.table] at found
    rcases answer_of_found limit (owner?_withOwner named n.qualifiedName) found with
      answered | ⟨called, receiver, others, same, missing⟩
    · exact .inl answered
    · exact .inr ⟨called, receiver, others, eq_method_of_withOwner named same, missing⟩
  · intro owner called receiver version suggestions failed suggested listed
    obtain ⟨written, n, rfl, found, rfl, rfl, rfl⟩ := of_methodNotFound failed
    obtain ⟨x, resolved, answers⟩ :=
      SymbolTable.resolves_of_mem_callableNames (mem_of_mem_suggest listed)
    obtain ⟨info, answered, asked, -, same⟩ := answer_method_found limit found resolved
    exact ⟨info, answered, asked, same ▸ answers⟩

end Lookup

/-- A lookup that is repeated in a session is answered from the snapshot of the first answer. -/
theorem followed_in_session (lookup : Lookup) (session : Session) {cache : SnapshotCache}
    (sound : cache.Sound) (tree : FileTree) (version : Option String) :
    lookup.Followed (session.answer cache tree (.about version lookup)).1 fun next =>
      (session.answer (session.answer cache tree (.about version lookup)).2 tree
        (.about version next)).1 := by
  simp only [answer_about]
  cases had : (cache.snapshot session.client tree version).1 with
  | error e =>
    constructor
    · intro name version suggestions failed
      cases failed
    · intro owner called receiver version suggestions failed
      cases failed
  | ok s =>
    rw [SnapshotCache.snapshot_again had]
    exact Lookup.followed_in_snapshot (sound.parsed had) lookup session.limit

/-- Every suggestion can be followed: in each snapshot of read files, and by each session, whatever
has been asked before and from which files. -/
theorem suggestions_followed (lookup : Lookup) :
    (∀ s : Snapshot, s.Parsed → ∀ limit,
      lookup.Followed (lookup.answer limit s) (·.answer limit s)) ∧
    ∀ (earlier : List Asked) (session : Session) (tree : FileTree) (version : Option String),
      lookup.Followed (session.answer (cacheAfter earlier) tree (.about version lookup)).1
        fun next =>
          (session.answer (session.answer (cacheAfter earlier) tree (.about version lookup)).2 tree
            (.about version next)).1 :=
  ⟨fun _ parsed => Lookup.followed_in_snapshot parsed lookup, fun earlier session tree version =>
    followed_in_session lookup session (sound_cacheAfter earlier) tree version⟩

def canvasText : String :=
  "class Canvas\ndef draw; end\nalias paint draw\nend\nclass Sheet < Canvas; end"

def canvasFile : StubFile where
  path := "canvas.rb"
  namespaces :=
    [{ kind := .klass, name := "Canvas", qualifiedName := "Canvas", path := "canvas.rb", line := 1,
       methods := [{ name := "draw", line := 2, aliases := ["paint"] }],
       aliases := [⟨"paint", "draw", .inst, 3⟩] },
     { kind := .klass, name := "Sheet", qualifiedName := "Sheet", superclass := some "Canvas",
       path := "canvas.rb", line := 5 }]

def canvasSnapshot : Snapshot := .ofFiles ⟨3, 3⟩ { parts := ["stubs"] } [canvasFile] []

/-- The suggested namespace is written without the `::` of the question, and the suggested method is
an inherited alias. -/
theorem canvas_suggestions_followed :
    (StubFile.parse canvasText "canvas.rb").toOption = some canvasFile ∧
      (Lookup.complete "dr" (some "::Shet") .inst 10).answer 400 canvasSnapshot =
        .error (.namespaceNotFound "::Shet" ⟨3, 3⟩ ["Sheet"]) ∧
      (∃ found, (Lookup.complete "dr" (some "Sheet") .inst 10).answer 400 canvasSnapshot =
        .ok found) ∧
      (Lookup.method "Sheet" "pant" .inst).answer 400 canvasSnapshot =
        .error (.methodNotFound "Sheet" "pant" .inst ⟨3, 3⟩ ["paint"]) ∧
      ∃ info, (Lookup.method "Sheet" "paint" .inst).answer 400 canvasSnapshot =
          .ok (.method info) ∧
        info.asked = "Sheet" ∧ info.found.method.answersTo "paint" = true := by
  have read : (StubFile.parse canvasText "canvas.rb").toOption = some canvasFile := by decide
  have parsed : canvasSnapshot.Parsed := by
    refine ⟨rfl, ?_⟩
    intro f hf
    obtain rfl := List.mem_singleton.mp hf
    exact ⟨canvasText, "canvas.rb", toOption_eq_some_iff.mp read⟩
  have noSheet : (Lookup.complete "dr" (some "::Shet") .inst 10).answer 400 canvasSnapshot =
      .error (.namespaceNotFound "::Shet" ⟨3, 3⟩ ["Sheet"]) := by cbv
  have noMethod : (Lookup.method "Sheet" "pant" .inst).answer 400 canvasSnapshot =
      .error (.methodNotFound "Sheet" "pant" .inst ⟨3, 3⟩ ["paint"]) := by cbv
  have completed := ((suggestions_followed _).1 canvasSnapshot parsed 400).namespaces _ _ _ noSheet
    "Sheet" List.mem_cons_self
  have called := ((suggestions_followed _).1 canvasSnapshot parsed 400).methods _ _ _ _ _ noMethod
    "paint" List.mem_cons_self
  refine ⟨read, noSheet, ?_, noMethod, called⟩
  rcases completed with found | ⟨_, _, _, other, -⟩
  · exact found
  · cases other

end Server

end RubyIndex
