import RubyIndex.Proofs.LintedAliases
import RubyIndex.Proofs.OpenOwners

/-! Visibility statements for methods of other declarations. A visibility statement is carried out
when it is read, on the methods that its own declaration has by then, and nothing of it is kept for
the merge. An alias statement is kept, and is carried out again on the merged methods. -/
namespace RubyIndex

def Method.key (m : Method) : Receiver × String := (m.receiver, m.name)

namespace Namespace

def keys (n : Namespace) : List (Receiver × String) := n.methods.map (·.key)

/-- The first method that is declared with a receiver and a name, whatever aliases others have. -/
def declared? (n : Namespace) (key : Receiver × String) : Option Method :=
  n.methods.find? (·.key == key)

end Namespace

section Methods

variable {receiver : Receiver} {name m : String} {methods : List Method} {key : Receiver × String}

theorem map_key_publish (s : Scope) (visibility : Visibility) (names : List String)
    (methods : List Method) :
    (names.foldl (s.publish visibility) methods).map (·.key) = methods.map (·.key) := by
  induction names generalizing methods with
  | nil => rfl
  | cons name names ih =>
    exact (ih _).trans (map_updateFirst (·.key) (fun x => { x with visibility := visibility })
      (fun _ => rfl) name s.receiver methods)

theorem prefix_key_makeModuleFunction (methods : List Method) (name : String) :
    methods.map (·.key) <+: (makeModuleFunction methods name).map (·.key) := by
  unfold makeModuleFunction
  split
  · exact List.prefix_rfl
  · rw [List.map_append,
      map_updateFirst (·.key) (fun x => { x with visibility := .priv }) fun _ => rfl]
    exact List.prefix_append _ _

theorem map_key_of_declared {first second : List Method}
    (same : first.map (·.declared) = second.map (·.declared)) :
    first.map (·.key) = second.map (·.key) := by
  have keys := congrArg (List.map Method.key) same
  rwa [List.map_map, List.map_map] at keys

theorem keys_applyAliases (n : Namespace) :
    Namespace.keys { n with methods := applyAliases n.methods n.aliases } = n.keys :=
  map_key_of_declared (map_declared_applyAliases n.methods n.aliases)

/-- The first methods with a receiver and a name are declared alike if all methods are. -/
theorem find?_key_of_declared {first second : List Method}
    (same : first.map (·.declared) = second.map (·.declared)) (key : Receiver × String) :
    (first.find? (·.key == key)).map (·.declared) =
      (second.find? (·.key == key)).map (·.declared) := by
  have found := congrArg (List.find? (·.key == key)) same
  rwa [List.find?_map, List.find?_map] at found

/-- A statement leaves the methods of its namespace their receivers and names, and adds its own
behind them. -/
theorem Namespace.Amended.keys_extend {line : Nat} {n n' : Namespace} (h : n.Amended line n') :
    n.keys <+: n'.keys := by
  unfold keys
  cases h with
  | define s x fresh here =>
    rw [List.map_append]
    exact List.prefix_append _ _
  | publish s visibility names =>
    have same := map_key_publish s visibility names n.methods
    exact ⟨[], (List.append_nil _).trans same.symm⟩
  | moduleFunctions names =>
    induction names generalizing n with
    | nil => exact List.prefix_rfl
    | cons name names ih =>
      exact (prefix_key_makeModuleFunction n.methods name).trans
        (ih (n := { n with methods := makeModuleFunction n.methods name }))
  | mixin s kind names =>
    unfold Scope.mix
    split <;> exact List.prefix_rfl
  | rename a here | constant c here => exact List.prefix_rfl

theorem Unaliased.reachedBy_iff (h : Unaliased methods) {x : Method} (hx : x ∈ methods) :
    x.reachedBy name receiver = true ↔ x.key = (receiver, name) := by
  simp [Method.reachedBy, Method.answersTo, Method.key, h x hx]

/-- A name that no method answers to may be left out of a statement. -/
theorem foldl_publish_filter {s : Scope} {visibility : Visibility} (names : List String)
    (absent : ∀ x ∈ methods, ¬ x.reachedBy m s.receiver = true) :
    (names.filter (· != m)).foldl (s.publish visibility) methods =
      names.foldl (s.publish visibility) methods := by
  induction names generalizing methods with
  | nil => rfl
  | cons name names ih =>
    by_cases same : name = m
    · subst same
      have nothing : s.publish visibility methods name = methods := by
        rcases updateFirst_cases name s.receiver (fun x => { x with visibility := visibility })
          methods with ⟨-, same⟩ | ⟨before, x, after, rfl, -, reached, -⟩
        · exact same
        · exact absurd reached (absent x (by simp))
      rw [List.filter_cons_of_neg (by simp), List.foldl_cons, nothing, ih absent]
    · have hidden : ∀ x : Method, ¬ x.reachedBy m s.receiver = true →
          ¬ ({ x with visibility := visibility } : Method).reachedBy m s.receiver = true :=
        fun _ hx => hx
      have still : ∀ x ∈ s.publish visibility methods name, ¬ x.reachedBy m s.receiver = true :=
        forall_mem_updateFirst hidden name s.receiver absent
      rw [List.filter_cons_of_pos (by simpa using same), List.foldl_cons, List.foldl_cons, ih still]

end Methods

namespace Reading

variable {r r' : Reading} {l : Located} {slot : Nat} {key : Receiver × String}
  {P : Namespace → Prop}

def Has (r : Reading) (slot : Nat) (P : Namespace → Prop) : Prop :=
  ∃ n : Namespace, r.namespaces[slot]? = some n ∧ P n

theorem Has.append (h : r.Has slot P) {more : List Namespace}
    (appended : r'.namespaces = r.namespaces ++ more) : r'.Has slot P := by
  obtain ⟨n, found, hn⟩ := h
  have inside := (List.getElem?_eq_some_iff.mp found).1
  exact ⟨n, by rw [appended, List.getElem?_append_left inside, found], hn⟩

theorem Has.of_eq (h : r.Has slot P) (same : r'.namespaces = r.namespaces) : r'.Has slot P :=
  h.append (same.trans (List.append_nil _).symm)

theorem Has.current (h : r.Has slot P) : r.current.2.Has slot P := by
  unfold Reading.current
  split
  · exact h
  · exact h
  · exact h.append rfl

theorem Has.edit (h : r.Has slot P) (s : Scope) {change : Namespace → Namespace}
    (keeps : ∀ n, P n → P (change n)) : (r.edit s change).Has slot P := by
  obtain ⟨n, found, hn⟩ := h
  refine ⟨if s.slot = slot then change n else n, ?_, ?_⟩
  · rw [Reading.edit, List.getElem?_modify, found]
    rfl
  · split
    · exact keeps n hn
    · exact hn

theorem Has.pop (h : r.Has slot P) (popped : r.pop? = some r') : r'.Has slot P := by
  unfold pop? at popped
  split at popped
  · cases popped
  · cases popped
    exact h

variable (amended : ∀ {line : Nat} {n n' : Namespace}, n.Amended line n' → P n → P n')

include amended

theorem Has.effect (h : r.Has slot P) {line : Nat} (effect : Effect line r r') :
    r'.Has slot P := by
  cases effect with
  | amend change amends => exact h.current.edit _ fun n => amended (amends n)
  | scope s owner place => exact h.current.of_eq (namespaces_setCurrent _ s)
  | global g => exact h
  | unrecognized source => exact h

theorem Has.act (h : r.Has slot P) (act : r.act? l = some r') : r'.Has slot P := by
  cases hs : l.statement with
  | close =>
    rw [act?, hs, apply, toOption_close] at act
    exact h.pop act
  | openSingleton =>
    rw [act?, hs] at act
    cases act
    exact h.current
  | openNamespace header =>
    have opened : (r.openNamespace header l.line l.documentation).Has slot P := by
      rw [openNamespace_eq]
      exact h.append rfl
    rw [act?, hs, apply] at act
    split at act
    · rw [toOption_close] at act
      exact opened.pop act
    · cases act
      exact opened
  | _ => exact h.effect amended (plain_effect (l := l) (by simpa [plain?, hs] using act))

/-- What a statement keeps of the namespaces that it may change, a run keeps. -/
theorem Has.run {ls : List Located} (h : r.Has slot P) (run : r.run? ls = some r') :
    r'.Has slot P := by
  induction ls generalizing r with
  | nil =>
    cases run
    exact h
  | cons l ls ih =>
    have run : (r.act? l).bind (run? · ls) = some r' := run
    obtain ⟨next, act, run⟩ := Option.bind_eq_some_iff.mp run
    exact ih (h.act amended act) run

omit amended

theorem Has.finish {f : StubFile} (h : r.Has slot P) (finish : r.finish? = some f) :
    ∃ n : Namespace,
      f.namespaces[slot]? = some { n with methods := applyAliases n.methods n.aliases } ∧ P n := by
  obtain ⟨n, found, hn⟩ := h
  unfold finish? Reading.finish at finish
  split at finish
  · cases finish
  · cases finish
    exact ⟨n, by simp [found], hn⟩

def Keeps (r : Reading) (slot : Nat) (key : Receiver × String) : Prop :=
  ∃ n : Namespace, r.namespaces[slot]? = some n ∧ key ∈ n.keys

theorem Keeps.edit (h : r.Keeps slot key) (s : Scope) {line : Nat}
    {change : Namespace → Namespace} (amends : ∀ n : Namespace, n.Amended line (change n)) :
    (r.edit s change).Keeps slot key :=
  Has.edit h s fun n hk => (amends n).keys_extend.subset hk

theorem Keeps.run {ls : List Located} (h : r.Keeps slot key) (run : r.run? ls = some r') :
    r'.Keeps slot key :=
  Has.run (fun amended hk => amended.keys_extend.subset hk) h run

theorem Keeps.finish {f : StubFile} (h : r.Keeps slot key) (finish : r.finish? = some f) :
    ∃ n : Namespace, f.namespaces[slot]? = some n ∧ key ∈ n.keys := by
  obtain ⟨n, found, hk⟩ := Has.finish h finish
  exact ⟨_, found, by rwa [keys_applyAliases]⟩

theorem run?_append_cons (r : Reading) (before : List Located) (l : Located)
    (after : List Located) : r.run? (before ++ l :: after) =
      (r.run? before).bind fun r => (r.act? l).bind (run? · after) := by
  unfold run?
  rw [List.foldlM_append]
  rfl

theorem edit_congr {s : Scope} {change other : Namespace → Namespace}
    (same : ∀ n, r.namespaces[s.slot]? = some n → change n = other n) :
    r.edit s change = r.edit s other := by
  refine congrArg (fun namespaces => { r with namespaces := namespaces }) ?_
  refine List.ext_getElem? fun i => ?_
  rw [List.getElem?_modify, List.getElem?_modify]
  cases found : r.namespaces[i]? with
  | none => rfl
  | some n =>
    by_cases here : s.slot = i
    · simp [here, same n (here ▸ found)]
    · simp [here]

end Reading

/-- A visibility statement of a text, with the statements before and after it. It stands in the body
that fills a place of the file, and is for methods with a receiver. -/
structure PublishesIn (text path : String) (before : List Located) (l : Located)
    (after : List Located) (visibility : Visibility) (names : List String) (slot : Nat)
    (receiver : Receiver) : Prop where
  statements : statementsOf text = before ++ l :: after
  statement : l.statement = .setVisibility visibility names
  body : ∃ r, Reading.run? { path := path } before = some r ∧ r.current.1.slot = slot ∧
    r.current.1.receiver = receiver

def Located.leaveOut (l : Located) (visibility : Visibility) (names : List String) (m : String) :
    Located :=
  { l with statement := .setVisibility visibility (names.filter (· != m)) }

/-- A merged namespace has the methods of its declarations, as they are declared. -/
theorem declared?_mergeAll {declarations : List Namespace} {n : Namespace}
    (merged : mergeAll declarations = some n) (key : Receiver × String) :
    (n.declared? key).map (·.declared) =
      ((declarations.flatMap (·.methods)).find? (·.key == key)).map (·.declared) := by
  cases declarations with
  | nil => cases merged
  | cons first later =>
    obtain ⟨_, eq, from_declarations⟩ := mergeAll_merged first later
    obtain rfl : n = _ := Option.some.inj (merged.symm.trans eq)
    exact find?_key_of_declared from_declarations.methods key

section Statements

variable {text path m : String} {before after : List Located} {l : Located}
  {visibility : Visibility} {names : List String} {slot : Nat} {receiver : Receiver} {f : StubFile}

/-- A statement may leave out each name that its declaration does not declare. -/
theorem PublishesIn.run_leaveOut
    (h : PublishesIn text path before l after visibility names slot receiver)
    (parsed : StubFile.parse text path = .ok f)
    (absent : ∀ n, f.namespaces[slot]? = some n → (receiver, m) ∉ n.keys) :
    (Reading.run? { path := path } (before ++ l.leaveOut visibility names m :: after)).bind
      Reading.finish? = some f := by
  obtain ⟨r, opened, rfl, rfl⟩ := h.body
  have sound : r.Sound := by
    refine Reading.sound_run (Reading.sound_empty path) (fun x hx => ?_) opened
    have member : x ∈ statementsOf text := by
      rw [h.statements]
      exact List.mem_append_left _ hx
    exact statement_of_mem_located member
  rw [← toOption_eq_some_iff, StubFile.parse_eq_run, h.statements, Reading.run?_append_cons,
    opened, Option.bind_some] at parsed
  obtain ⟨last, run, finish⟩ := Option.bind_eq_some_iff.mp parsed
  obtain ⟨next, act, run⟩ := Option.bind_eq_some_iff.mp run
  have same : r.act? (l.leaveOut visibility names m) = r.act? l := by
    unfold Reading.act?
    rw [h.statement]
    refine congrArg some (Reading.edit_congr fun n found => ?_)
    refine congrArg (fun methods => { n with methods := methods }) (foldl_publish_filter names ?_)
    intro x hx reached
    -- A method that the statement reaches is still there when the file is complete.
    have current := (Reading.sound_current sound).1.namespaces n (List.mem_of_getElem? found)
    have key := (current.unaliased.reachedBy_iff hx).mp reached
    have kept : r.current.2.Keeps r.current.1.slot (r.current.1.receiver, m) :=
      ⟨n, found, key ▸ List.mem_map_of_mem hx⟩
    rw [Reading.act?, h.statement] at act
    cases act
    have published : ∀ n : Namespace, n.Amended l.line
        { n with methods := names.foldl (r.current.1.publish visibility) n.methods } :=
      fun n => .publish r.current.1 visibility names
    obtain ⟨d, place, own⟩ := ((kept.edit r.current.1 published).run run).finish finish
    exact absent d place own
  rw [Reading.run?_append_cons, opened, Option.bind_some, same, parsed]

end Statements

namespace SymbolTable

variable {first rest : List StubFile} {f : StubFile} {text path m : String}
  {before after : List Located} {l : Located} {visibility : Visibility} {names : List String}
  {outer inner : List Namespace} {d : Namespace} {receiver : Receiver} {x : Method}

/-- The declarations of the name of a declaration, with those before it and those after it. -/
theorem declarations_around (place : f.namespaces = outer ++ d :: inner) :
    (ofFiles (first ++ f :: rest)).declarations d.qualifiedName =
      (first.flatMap (·.namespaces) ++ outer).filter (·.qualifiedName == d.qualifiedName) ++
        d :: (inner ++ rest.flatMap (·.namespaces)).filter
          (·.qualifiedName == d.qualifiedName) := by
  rw [declarations, (logged_ofFiles _).declared, List.flatMap_append, List.flatMap_cons, place]
  simp

/-- A statement in a later declaration of a namespace, which does not declare the method itself. The
file is the same without the name of the method in the statement, and the method in the table has
the visibility of its own declaration. So the statement is heeded exactly if the method had its
visibility before. An alias of the method in the same declaration is found all the same. -/
theorem reopened_visibility_iff (parsed : ∀ g ∈ first ++ f :: rest, g.Parsed)
    (read : StubFile.parse text path = .ok f) (place : f.namespaces = outer ++ d :: inner)
    (statement : PublishesIn text path before l after visibility names outer.length receiver)
    (absent : (receiver, m) ∉ d.keys)
    (declared : (((first.flatMap (·.namespaces) ++ outer).filter
      (·.qualifiedName == d.qualifiedName)).flatMap (·.methods)).find? (·.key == (receiver, m)) =
        some x) :
    ∃ n y, (ofFiles (first ++ f :: rest)).find? d.qualifiedName = some n ∧
      n.declared? (receiver, m) = some y ∧ y.declared = x.declared ∧
      (y.visibility = visibility ↔ x.visibility = visibility) ∧
      (Reading.run? { path := path } (before ++ l.leaveOut visibility names m :: after)).bind
        Reading.finish? = some f ∧
      ∀ a ∈ d.aliases, a.receiver = receiver → a.oldName = m →
        (n.findMethod? a.newName receiver).isSome = true := by
  have member : d ∈ f.namespaces := by simp [place]
  obtain ⟨n, -, merged, aliases⟩ :=
    get?_of_declared parsed (by simp : f ∈ first ++ f :: rest) member
  have found : (ofFiles (first ++ f :: rest)).find? d.qualifiedName = some n := by
    rw [find?_ofFiles, merged]
  have methods := declared?_mergeAll merged (receiver, m)
  rw [declarations_around place, List.flatMap_append, List.find?_append, declared,
    Option.some_or, Option.map_some] at methods
  obtain ⟨y, hy, same⟩ := Option.map_eq_some_iff.mp methods
  have visible : y.visibility = x.visibility := congrArg (·.visibility) same
  have key : y.key = (receiver, m) := by simpa using List.find?_some hy
  obtain ⟨onReceiver, name⟩ := Prod.ext_iff.mp key
  refine ⟨n, y, found, hy, same, by rw [visible], ?_, ?_⟩
  · refine statement.run_leaveOut read fun n own => ?_
    rw [place, List.getElem?_append_right (Nat.le_refl _), Nat.sub_self,
      List.getElem?_cons_zero] at own
    cases own
    exact absent
  · rintro a ha rfl rfl
    have recorded := recorded_mergeAll (read_declarations parsed d.qualifiedName) merged
    rw [findMethod?_isSome_iff]
    exact recorded.answered_alias (aliases a ha) (List.mem_of_find?_eq_some hy) onReceiver name

def hiddenText : String :=
  "class Shape\ndef draw; end\nprivate :draw\nend\nclass Shape\nprivate :draw\nend"

def hiddenDeclaration : Namespace :=
  { kind := .klass, name := "Shape", qualifiedName := "Shape", path := "shape.rb", line := 5 }

def hiddenMethod : Method := { name := "draw", visibility := .priv, line := 2 }

def hiddenOuter : List Namespace :=
  [{ hiddenDeclaration with methods := [hiddenMethod], line := 1 }]

def hiddenFile : StubFile :=
  { path := "shape.rb", namespaces := hiddenOuter ++ [hiddenDeclaration] }

theorem hidden_method_stays_private :
    StubFile.parse hiddenText "shape.rb" = .ok hiddenFile ∧
      ∃ n y, (ofFiles [hiddenFile]).find? "Shape" = some n ∧
        n.declared? (.inst, "draw") = some y ∧ y.visibility = .priv := by
  have read : StubFile.parse hiddenText "shape.rb" = .ok hiddenFile :=
    toOption_eq_some_iff.mp (by decide)
  have parsed : ∀ g ∈ [] ++ hiddenFile :: [], g.Parsed := by
    intro g hg
    obtain rfl := List.mem_singleton.mp hg
    exact ⟨_, _, read⟩
  have statement : PublishesIn hiddenText "shape.rb" ((statementsOf hiddenText).take 5)
      ⟨.setVisibility .priv ["draw"], 6, none⟩ [⟨.close, 7, none⟩] .priv ["draw"]
      hiddenOuter.length .inst := by
    refine ⟨by decide, rfl, ?_⟩
    have opened : (Reading.run? { path := "shape.rb" } ((statementsOf hiddenText).take 5)).any
        (fun r => r.current.1.slot = 1 ∧ r.current.1.receiver = .inst) = true := by decide
    obtain ⟨r, run, body⟩ := (Option.any_eq_true _ _).mp opened
    exact ⟨r, run, of_decide_eq_true body⟩
  have absent : (Receiver.inst, "draw") ∉ hiddenDeclaration.keys := by decide
  obtain ⟨n, y, found, hy, -, heeded, -⟩ :=
    reopened_visibility_iff parsed read rfl statement absent (by rfl)
  exact ⟨read, n, y, found, hy, heeded.mpr rfl⟩

def shownText : String :=
  "class Shape\ndef draw; end\nend\nclass Shape\nprivate :draw\nalias paint draw\nend"

def shownFile : StubFile where
  path := "shape.rb"
  namespaces :=
    [{ kind := .klass, name := "Shape", qualifiedName := "Shape", path := "shape.rb", line := 1,
       methods := [{ name := "draw", line := 2 }] },
     { kind := .klass, name := "Shape", qualifiedName := "Shape", path := "shape.rb", line := 4,
       aliases := [⟨"paint", "draw", .inst, 6⟩] }]

/-- The alias is recorded on the method, which stays public. -/
theorem reopened_method_stays_public :
    (StubFile.parse shownText "shape.rb").toOption = some shownFile ∧
      ((ofFiles [shownFile]).find? "Shape").bind (·.findMethod? "draw" .inst) =
        some { name := "draw", visibility := .pub, aliases := ["paint"], line := 2 } := by
  refine ⟨by decide, by decide⟩

end SymbolTable

end RubyIndex
