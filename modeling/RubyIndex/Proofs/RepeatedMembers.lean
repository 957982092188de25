import Mathlib.Algebra.GroupWithZero.Nat
import RubyIndex.Proofs.FindingPlaces

/-! Members that are declared more than once. The rule goes by texts, in which the mark between the
owner and the name tells instance methods, singleton methods and constants apart. So what it finds
about a member are the entries of that member over all files, without the first of them. -/
namespace RubyIndex

inductive MemberName where
  | method (receiver : Receiver) (name : String)
  | constant (name : String)
  deriving DecidableEq, Repr

def Namespace.members (n : Namespace) : List (MemberName × Nat) :=
  n.methods.map (fun m => (.method m.receiver m.name, m.line)) ++
    n.constants.map fun c => (.constant c.name, c.line)

namespace MemberName

def text (owner : String) : MemberName → String
  | method receiver name => ({ name := name, receiver := receiver } : Method).qualifiedName owner
  | constant name => s!"{owner}::{name}"

def mark : MemberName → String
  | method .inst _ => "#"
  | method .singleton _ => "."
  | constant _ => "::"

def name : MemberName → String
  | method _ name => name
  | constant name => name

theorem text_eq (owner : String) (member : MemberName) :
    member.text owner = owner ++ (member.mark ++ member.name) := by
  rcases member with ⟨_ | _, name⟩ | name <;> exact String.append_assoc

/-- No mark begins another, whatever the names. -/
theorem text_inj {owner : String} {member other : MemberName} :
    member.text owner = other.text owner ↔ member = other := by
  refine ⟨?_, congrArg _⟩
  rw [text_eq, text_eq, String.append_right_inj, ← String.toList_inj, String.toList_append,
    String.toList_append]
  rcases member with ⟨_ | _, name⟩ | name <;> rcases other with ⟨_ | _, other⟩ | other <;>
    simp [mark, MemberName.name, String.toList_inj]

/-- The file and the line of each entry of a member in the declarations of a namespace. -/
def entries (files : List StubFile) (owner : String) (member : MemberName) : List (String × Nat) :=
  files.flatMap fun f => (f.namespaces.filter (·.qualifiedName == owner)).flatMap fun n =>
    (n.members.filter (·.1 = member)).map fun entry => (f.path, entry.2)

def finding (s : Snapshot) (owner : String) (member : MemberName) (place : String × Nat) :
    Lint.Finding where
  rule := .duplicateMember
  path := s.relativePath place.1
  line := place.2
  owner := some owner
  message := s!"{member.text owner} is declared twice"

end MemberName

def Namespace.occurrences (owner : String) (member : MemberName) (n : Namespace) : Nat :=
  if n.qualifiedName = owner then (n.members.filter (·.1 = member)).length else 0

theorem MemberName.length_entries (files : List StubFile) (owner : String) (member : MemberName) :
    (member.entries files owner).length =
      ((files.flatMap (·.namespaces)).map (Namespace.occurrences owner member)).sum := by
  have inFile (path : String) (namespaces : List Namespace) :
      ((namespaces.filter (·.qualifiedName == owner)).flatMap fun n =>
        (n.members.filter (·.1 = member)).map fun entry => (path, entry.2)).length =
        (namespaces.map (Namespace.occurrences owner member)).sum := by
    induction namespaces with
    | nil => rfl
    | cons n namespaces ih =>
      rw [List.map_cons, List.sum_cons, ← ih, Namespace.occurrences]
      by_cases named : n.qualifiedName = owner
      · simp [named]
      · simp [named]
  induction files with
  | nil => rfl
  | cons f files ih =>
    rw [entries, List.flatMap_cons, List.length_append, inFile, ← entries, ih, List.flatMap_cons,
      List.map_append, List.sum_append]

namespace Lint

variable {s : Snapshot} {x : Finding} {owner : String} {member : MemberName}

def Finding.Concerns (owner : String) (member : MemberName) (x : Finding) : Prop :=
  x.owner = some owner ∧ x.message = s!"{member.text owner} is declared twice"

instance : DecidablePred (Finding.Concerns owner member) :=
  fun _ => inferInstanceAs (Decidable (_ ∧ _))

/-- The members with one key are found but for the first, unless one has been seen before. -/
theorem filter_repeated (key : String) (seen : List String) (members : List Member) :
    (repeated seen members).filter (·.key = key) =
      if key ∈ seen then members.filter (·.key = key)
      else (members.filter (·.key = key)).tail := by
  induction members generalizing seen with
  | nil => simp [repeated]
  | cons m rest ih =>
    simp only [repeated, List.contains_iff_mem]
    by_cases same : m.key = key
    · subst same
      rw [List.filter_cons_of_pos (by simp), List.tail_cons]
      by_cases known : m.key ∈ seen
      · rw [if_pos known, if_pos known, List.filter_cons_of_pos (by simp), ih, if_pos known]
      · rw [if_neg known, if_neg known, ih, if_pos List.mem_cons_self]
    · rw [List.filter_cons_of_neg (by simpa using same)]
      by_cases known : m.key ∈ seen
      · rw [if_pos known, List.filter_cons_of_neg (by simpa using same), ih]
      · rw [if_neg known, ih]
        simp only [List.mem_cons, Ne.symm same, false_or]

theorem membersOf_eq (n : Namespace) : membersOf n =
    n.members.map fun entry => ⟨entry.1.text n.qualifiedName, n.path, entry.2⟩ := by
  rw [membersOf, Namespace.members, List.map_append, List.map_map, List.map_map]
  rfl

theorem filter_membersOf (member : MemberName) (n : Namespace) :
    (membersOf n).filter (·.key = member.text n.qualifiedName) =
      (n.members.filter (·.1 = member)).map fun entry =>
        ⟨member.text n.qualifiedName, n.path, entry.2⟩ := by
  rw [membersOf_eq, List.filter_map]
  have named : n.members.filter
      ((fun m : Member => decide (m.key = member.text n.qualifiedName)) ∘
        fun entry => ⟨entry.1.text n.qualifiedName, n.path, entry.2⟩) =
      n.members.filter (·.1 = member) :=
    List.filter_congr fun entry _ => by simp [MemberName.text_inj]
  rw [named]
  refine List.map_congr_left fun entry hm => ?_
  have same : entry.1 = member := by simpa using (List.mem_filter.mp hm).2
  rw [same]

/-- In a list without repetitions, only one item contributes. -/
theorem flatMap_of_nodup {α β : Type} [DecidableEq α] {l : List α} (distinct : l.Nodup) {a : α}
    {g : α → List β} (others : ∀ b ∈ l, b ≠ a → g b = []) :
    l.flatMap g = if a ∈ l then g a else [] := by
  by_cases listed : a ∈ l
  · obtain ⟨before, after, rfl⟩ := List.append_of_mem listed
    have apart : ∀ b ∈ before ++ after, b ≠ a := by
      rintro b hb rfl
      exact (List.nodup_cons.mp (List.nodup_middle.mp distinct)).1 hb
    have first : before.flatMap g = [] := List.flatMap_eq_nil_iff.mpr fun b hb =>
      others b (by simp [hb]) (apart b (List.mem_append_left _ hb))
    have last : after.flatMap g = [] := List.flatMap_eq_nil_iff.mpr fun b hb =>
      others b (by simp [hb]) (apart b (List.mem_append_right _ hb))
    rw [if_pos listed, List.flatMap_append, List.flatMap_cons, first, last, List.nil_append,
      List.append_nil]
  · rw [if_neg listed]
    exact List.flatMap_eq_nil_iff.mpr fun b hb => others b hb (by rintro rfl; exact listed hb)

def memberFinding (s : Snapshot) (owner : String) (m : Member) : Finding where
  rule := .duplicateMember
  path := s.relativePath m.path
  line := m.line
  owner := some owner
  message := s!"{m.key} is declared twice"

theorem concerns_memberFinding {name : String} {m : Member} :
    (memberFinding s name m).Concerns owner member ↔ name = owner ∧ m.key = member.text owner := by
  refine and_congr Option.some_inj ?_
  exact String.append_left_inj " is declared twice"

section Files

variable {files : List StubFile} (version : Version) (directory : Path) (errors : List FileError)

theorem declarations_ofFiles (files : List StubFile) (owner : String) :
    (SymbolTable.ofFiles files).declarations owner =
      files.flatMap fun f => f.namespaces.filter (·.qualifiedName == owner) := by
  rw [SymbolTable.declarations, (SymbolTable.logged_ofFiles files).declared, List.filter_flatMap]

/-- The entries of a member are its members in the declarations of the table. -/
theorem filter_declared (parsed : ∀ f ∈ files, f.Parsed) (owner : String) (member : MemberName) :
    (((SymbolTable.ofFiles files).declarations owner).flatMap membersOf).filter
        (·.key = member.text owner) =
      (member.entries files owner).map fun place =>
        ⟨member.text owner, place.1, place.2⟩ := by
  rw [declarations_ofFiles, List.filter_flatMap, List.flatMap_assoc, MemberName.entries,
    List.map_flatMap]
  refine List.flatMap_congr fun f hf => ?_
  rw [List.map_flatMap]
  refine List.flatMap_congr fun n hn => ?_
  obtain ⟨declared, named⟩ := List.mem_filter.mp hn
  obtain rfl : n.qualifiedName = owner := by simpa using named
  rw [filter_membersOf, List.map_map, (parsed f hf).path n declared]
  rfl

/-- What the rule finds about a member comes from the declarations of the namespace of the member.
-/
theorem filter_check (owner : String) (member : MemberName) :
    (Rule.duplicateMember.check (.ofFiles version directory files errors)).filter
        (Finding.Concerns owner member) =
      ((repeated [] (((SymbolTable.ofFiles files).declarations owner).flatMap membersOf)).filter
        (·.key = member.text owner)).map
          (memberFinding (.ofFiles version directory files errors) owner) := by
  have log := SymbolTable.logged_ofFiles files
  let found (name : String) : List Finding :=
    (repeated [] (((SymbolTable.ofFiles files).declarations name).flatMap membersOf)).map
      (memberFinding (.ofFiles version directory files errors) name)
  change ((SymbolTable.ofFiles files).names.flatMap found).filter _ = _
  have elsewhere : ∀ name ∈ (SymbolTable.ofFiles files).names, name ≠ owner →
      (found name).filter (Finding.Concerns owner member) = [] := by
    intro name _ other
    rw [List.filter_eq_nil_iff]
    intro x hx concerned
    obtain ⟨m, -, rfl⟩ := List.mem_map.mp hx
    exact other (concerns_memberFinding.mp (of_decide_eq_true concerned)).1
  have here : (found owner).filter (Finding.Concerns owner member) =
      ((repeated [] (((SymbolTable.ofFiles files).declarations owner).flatMap membersOf)).filter
        (·.key = member.text owner)).map
          (memberFinding (.ofFiles version directory files errors) owner) := by
    rw [List.filter_map]
    refine congrArg _ (List.filter_congr fun m _ => ?_)
    simp [concerns_memberFinding]
  rw [List.filter_flatMap, flatMap_of_nodup log.distinct elsewhere, here]
  by_cases listed : owner ∈ (SymbolTable.ofFiles files).names
  · rw [if_pos listed]
  · have none : (SymbolTable.ofFiles files).declarations owner = [] := by
      rw [log.names, mem_keepFirst_id] at listed
      rw [SymbolTable.declarations, log.declared, List.filter_eq_nil_iff]
      intro n hn named
      exact listed (List.mem_map.mpr ⟨n, hn, by simpa using named⟩)
    rw [if_neg listed, none]
    rfl

/-- What the rule finds about a member are the entries of the member but for the first. -/
theorem filter_check_eq (parsed : ∀ f ∈ files, f.Parsed) (owner : String) (member : MemberName) :
    (Rule.duplicateMember.check (.ofFiles version directory files errors)).filter
        (Finding.Concerns owner member) =
      (member.entries files owner).tail.map
        (member.finding (.ofFiles version directory files errors) owner) := by
  rw [filter_check, filter_repeated, if_neg List.not_mem_nil, filter_declared parsed,
    ← List.map_tail, List.map_map]
  rfl

theorem length_filter_check (parsed : ∀ f ∈ files, f.Parsed) (owner : String)
    (member : MemberName) :
    ((Rule.duplicateMember.check (.ofFiles version directory files errors)).filter
      (Finding.Concerns owner member)).length = (member.entries files owner).length - 1 := by
  rw [filter_check_eq version directory errors parsed, List.length_map, List.length_tail]

/-- The rule finds no more than entries of members. -/
theorem concerns_of_mem_check {s : Snapshot} {x : Finding}
    (found : x ∈ Rule.duplicateMember.check s) : ∃ owner member, x.Concerns owner member := by
  obtain ⟨owner, -, found⟩ := List.mem_flatMap.mp found
  obtain ⟨m, hm, rfl⟩ := List.mem_map.mp found
  obtain ⟨n, hn, hm⟩ := List.mem_flatMap.mp (mem_of_mem_repeated hm)
  have named : n.qualifiedName = owner := by simpa using (List.mem_filter.mp hn).2
  rw [membersOf_eq] at hm
  obtain ⟨⟨member, line⟩, -, rfl⟩ := List.mem_map.mp hm
  exact ⟨owner, member, rfl, by rw [named]⟩

theorem Finding.Concerns.eq {x : Finding} {owner other : String} {member another : MemberName}
    (h : x.Concerns owner member) (h' : x.Concerns other another) :
    other = owner ∧ another = member := by
  obtain rfl : other = owner := Option.some.inj (h'.1.symm.trans h.1)
  have same : another.text other = member.text other :=
    (String.append_left_inj " is declared twice").mp (h'.2.symm.trans h.2)
  exact ⟨rfl, MemberName.text_inj.mp same⟩

/-- A member with so many entries over all files is found once less, at the entries after the first.
Every finding concerns just one member: an instance method, a singleton method and a constant of one
name are three members. -/
theorem repeated_members_found (parsed : ∀ f ∈ files, f.Parsed) :
    (∀ owner member,
      (Rule.duplicateMember.check (.ofFiles version directory files errors)).filter
          (Finding.Concerns owner member) =
        (member.entries files owner).tail.map
          (member.finding (.ofFiles version directory files errors) owner) ∧
      ((Rule.duplicateMember.check (.ofFiles version directory files errors)).filter
          (Finding.Concerns owner member)).length = (member.entries files owner).length - 1) ∧
    ∀ x ∈ Rule.duplicateMember.check (.ofFiles version directory files errors),
      ∃ owner member, x.Concerns owner member ∧
        ∀ other another, x.Concerns other another → other = owner ∧ another = member := by
  refine ⟨fun owner member => ?_, fun x found => ?_⟩
  · exact ⟨filter_check_eq version directory errors parsed owner member,
      length_filter_check version directory errors parsed owner member⟩
  · obtain ⟨owner, member, concerned⟩ := concerns_of_mem_check found
    exact ⟨owner, member, concerned, fun other another also => concerned.eq also⟩

end Files

def penText : String := "class Pen\ndef Draw; end\ndef self.Draw; end\nDraw = 1\nend"

def morePenText : String := "class Pen\n\ndef Draw; end\nend"

def penFile : StubFile where
  path := "pen.rb"
  namespaces :=
    [{ kind := .klass, name := "Pen", qualifiedName := "Pen", path := "pen.rb", line := 1
       methods :=
         [{ name := "Draw", line := 2 }, { name := "Draw", receiver := .singleton, line := 3 }]
       constants := [{ name := "Draw", value := "1", line := 4 }] }]

def morePenFile : StubFile where
  path := "more.rb"
  namespaces :=
    [{ kind := .klass, name := "Pen", qualifiedName := "Pen", path := "more.rb", line := 1
       methods := [{ name := "Draw", line := 3 }] }]

def penSnapshot : Snapshot := .ofFiles ⟨3, 3⟩ { parts := ["stubs"] } [penFile, morePenFile] []

theorem pen_members_found : (∀ f ∈ [penFile, morePenFile], f.Parsed) ∧
    (Rule.duplicateMember.check penSnapshot).filter
        (Finding.Concerns "Pen" (.method .inst "Draw")) =
      [MemberName.finding penSnapshot "Pen" (.method .inst "Draw") ("more.rb", 3)] ∧
    ((Rule.duplicateMember.check penSnapshot).filter
        (Finding.Concerns "Pen" (.method .singleton "Draw"))).length = 0 ∧
    ((Rule.duplicateMember.check penSnapshot).filter
        (Finding.Concerns "Pen" (.constant "Draw"))).length = 0 := by
  have parsed : ∀ f ∈ [penFile, morePenFile], f.Parsed := by
    simp only [List.forall_mem_cons]
    exact ⟨⟨penText, "pen.rb", toOption_eq_some_iff.mp (by decide)⟩,
      ⟨morePenText, "more.rb", toOption_eq_some_iff.mp (by decide)⟩, List.forall_mem_nil _⟩
  obtain ⟨found, -⟩ := repeated_members_found ⟨3, 3⟩ { parts := ["stubs"] } [] parsed
  refine ⟨parsed, (found "Pen" (.method .inst "Draw")).1.trans ?_,
    (found "Pen" (.method .singleton "Draw")).2.trans ?_,
    (found "Pen" (.constant "Draw")).2.trans ?_⟩ <;> rfl

end Lint

end RubyIndex
