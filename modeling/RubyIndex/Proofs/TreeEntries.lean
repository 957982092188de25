import RubyIndex.FileTree
import RubyIndex.Proofs.PathTexts

/-! The entries of a tree. What is done to a tree keeps its entries apart and their names ones that
a directory can hold, and then a path through a directory leads to what the directory lists. -/
namespace RubyIndex.FileTree

variable {t : FileTree} {p : Path} {name : String} {place parts rest : List String} {node : Node}

structure IsName (name : String) : Prop extends Path.IsPart name where
  notParent : name ≠ ".."
  noZero : Path.hasZero name = false
  short : Path.isLongName name = false

instance (name : String) : Decidable (IsName name) :=
  decidable_of_iff (Path.IsPart name ∧ name ≠ ".." ∧ Path.hasZero name = false ∧
      Path.isLongName name = false)
    ⟨fun ⟨part, notParent, noZero, short⟩ => ⟨part, notParent, noZero, short⟩,
      fun ⟨part, notParent, noZero, short⟩ => ⟨part, notParent, noZero, short⟩⟩

/-- No two entries stand at one place, and all have names that a directory can hold. -/
structure Proper (t : FileTree) : Prop where
  distinct : (t.entries.map (·.1)).Nodup
  named : ∀ e ∈ t.entries, ∀ part ∈ e.1, IsName part

theorem proper_empty : Proper {} := ⟨List.nodup_nil, fun _ h => absurd h List.not_mem_nil⟩

theorem Proper.filter (h : t.Proper) (keep : List String × Node → Bool) :
    Proper ⟨t.entries.filter keep⟩ where
  distinct := h.distinct.sublist (List.filter_sublist.map _)
  named e he := h.named e (List.mem_of_mem_filter he)

theorem Proper.concat (h : t.Proper) (fresh : ∀ e ∈ t.entries, e.1 ≠ parts)
    (names : ∀ part ∈ parts, IsName part) : Proper ⟨t.entries ++ [(parts, node)]⟩ where
  distinct := by
    rw [List.map_append, List.nodup_append]
    refine ⟨h.distinct, by simp, ?_⟩
    intro a ha b hb
    obtain ⟨e, he, rfl⟩ := List.mem_map.mp ha
    obtain rfl : b = parts := by simpa using hb
    exact fresh e he
  named e he := by
    rcases List.mem_append.mp he with he | he
    · exact h.named e he
    · obtain rfl := List.mem_singleton.mp he
      exact names

theorem Proper.addDirectory (h : t.Proper) (names : ∀ part ∈ parts, IsName part) :
    (t.addDirectory parts).Proper := by
  unfold FileTree.addDirectory
  split
  · exact h
  · next missing =>
    refine h.concat ?_ names
    intro e he same
    have absent : parts ≠ [] ∧ t.entries.lookup parts = none := by
      simpa [get?, ite_eq_iff] using missing
    have apart := List.lookup_eq_none_iff.mp absent.2 e he
    simp [same] at apart

theorem Proper.enter (h : t.Proper) (start : ∀ part ∈ place, IsName part)
    (names : ∀ part ∈ parts, part = ".." ∨ IsName part) :
    (t.enter place parts).1.Proper ∧ ∀ part ∈ (t.enter place parts).2, IsName part := by
  induction parts generalizing t place with
  | nil => exact ⟨h, start⟩
  | cons part rest ih =>
    have rests : ∀ part ∈ rest, part = ".." ∨ IsName part := fun part hpart =>
      names part (List.mem_cons_of_mem _ hpart)
    unfold FileTree.enter
    split
    · exact ih h (fun part hpart => start part (List.dropLast_subset _ hpart)) rests
    · next down =>
      have name : IsName part := (names part List.mem_cons_self).resolve_left down
      have deeper : ∀ q ∈ place ++ [part], IsName q := by
        intro q hq
        rcases List.mem_append.mp hq with hq | hq
        · exact start q hq
        · obtain rfl := List.mem_singleton.mp hq
          exact name
      exact ih (h.addDirectory deeper) deeper rests

theorem Proper.makeDirectory (h : t.Proper) (names : ∀ part ∈ parts, part = ".." ∨ IsName part) :
    (t.makeDirectory parts).Proper :=
  (h.enter (fun _ hpart => absurd hpart List.not_mem_nil) names).1

theorem Proper.writeFile (h : t.Proper) (names : ∀ part ∈ parts, part = ".." ∨ IsName part)
    (last : ∀ part ∈ parts.getLast?, IsName part) (bytes : List UInt8) :
    (t.writeFile parts bytes).Proper := by
  have start : ∀ part ∈ ([] : List String), IsName part := fun _ hpart =>
    absurd hpart List.not_mem_nil
  have on := h.enter start fun part hpart => names part (List.dropLast_subset parts hpart)
  unfold FileTree.writeFile
  refine (on.1.filter _).concat ?_ ?_
  · intro e he
    simpa using (List.mem_filter.mp he).2
  · intro part hpart
    rcases List.mem_append.mp hpart with hpart | hpart
    · exact on.2 part hpart
    · exact last part (by simpa using hpart)

theorem Proper.remove (h : t.Proper) (parts : List String) : (t.remove parts).Proper := by
  unfold FileTree.remove
  split
  · exact h.filter _
  · exact h

theorem Proper.get?_eq_some (h : t.Proper) (entry : (parts, node) ∈ t.entries)
    (below : parts ≠ []) : t.get? parts = some node := by
  obtain ⟨before, after, eq⟩ := List.append_of_mem entry
  have apart := h.distinct
  rw [eq, List.map_append, List.nodup_append] at apart
  rw [get?, if_neg (by simpa using below), List.lookup_eq_some_iff]
  refine ⟨before, after, eq, ?_⟩
  intro e he
  have other := apart.2.2 e.1 (List.mem_map_of_mem he) parts List.mem_cons_self
  simpa using Ne.symm other

theorem mem_below_iff : (rest, node) ∈ t.below p ↔
    ∃ place, t.locate p = .ok (.inside place) ∧ rest ≠ [] ∧ (place ++ rest, node) ∈ t.entries := by
  unfold below
  split
  · next place located =>
    simp only [located, Except.ok.injEq, Place.inside.injEq, exists_eq_left', List.mem_filterMap]
    constructor
    · rintro ⟨⟨path, found⟩, entry, picked⟩
      dsimp only at picked
      split at picked
      · cases picked
      · cases picked
      · next more apart under =>
        cases picked
        rw [List.isPrefixOf?_eq_some_iff_append_eq] at under
        subst under
        exact ⟨fun empty => apart (by rw [empty]), entry⟩
    · rintro ⟨filled, entry⟩
      refine ⟨_, entry, ?_⟩
      have under : place.isPrefixOf? (place ++ rest) = some rest :=
        List.isPrefixOf?_eq_some_iff_append_eq.mpr rfl
      dsimp only
      rw [under]
      cases rest with
      | nil => exact absurd rfl filled
      | cons first more => rfl
  · next outside =>
    constructor
    · intro h
      exact absurd h List.not_mem_nil
    · rintro ⟨place, located, -⟩
      exact absurd located (outside place)

theorem mem_children_iff : (name, node) ∈ t.children p ↔ ([name], node) ∈ t.below p := by
  unfold children
  rw [List.mem_filterMap]
  constructor
  · rintro ⟨⟨_ | ⟨first, _ | ⟨second, more⟩⟩, found⟩, entry, picked⟩
    · cases picked
    · cases picked
      exact entry
    · cases picked
  · intro entry
    exact ⟨_, entry, rfl⟩

theorem Proper.isName_of_mem_below (h : t.Proper) (entry : (rest, node) ∈ t.below p) :
    ∀ part ∈ rest, IsName part := by
  obtain ⟨place, -, -, listed⟩ := mem_below_iff.mp entry
  intro part hpart
  exact h.named _ listed part (List.mem_append_right place hpart)

def into (t : FileTree) (name : String) : Place → Except PathFault Place
  | .inside place =>
    if t.get? place = some .directory ∧ (t.get? (place ++ [name])).isSome then
      .ok (.inside (place ++ [name]))
    else .error .missing
  | .above => .error .missing

theorem above_concat (down : name ≠ "..") (short : Path.isLongName name = false) :
    above (parts ++ [name]) = above parts >>= t.into name := by
  unfold above
  rw [List.find?_append]
  cases parts.find? (· != "..") with
  | none =>
    have found : [name].find? (· != "..") = some name := by simp [down]
    rw [Option.none_or, found]
    simp only [short]
    rfl
  | some part => rfl

theorem follow_concat (down : name ≠ "..") (short : Path.isLongName name = false) :
    t.follow place (parts ++ [name]) = t.follow place parts >>= t.into name := by
  fun_induction t.follow place parts with
  | case1 place there =>
    rw [List.nil_append, follow, if_neg down, short]
    simp only [Bool.false_eq_true, if_false, follow]
    change _ = t.into name (.inside place)
    unfold into
    by_cases dir : t.get? place = some .directory <;> simp [dir]
  | case2 place missing =>
    have none : t.get? place = none := by simpa using missing
    rw [List.nil_append, follow, none]
    rfl
  | case3 place rest dir empty =>
    rw [List.cons_append, follow, if_pos dir, if_pos rfl, if_pos empty, above_concat down short]
  | case4 place rest dir filled ih =>
    rw [List.cons_append, follow, if_pos dir, if_pos rfl, if_neg filled, ih]
  | case5 place part rest dir downward long =>
    rw [List.cons_append, follow, if_pos dir, if_neg downward, if_pos long]
    rfl
  | case6 place part rest dir downward fits ih =>
    rw [List.cons_append, follow, if_pos dir, if_neg downward, if_neg fits, ih]
  | case7 place part rest other =>
    rw [List.cons_append, follow, if_neg other]
    rfl

theorem locate_concat {there : Place} (named : IsName name)
    (short : Path.isLong (p.append [name]).text = false) (located : t.locate p = .ok there) :
    t.locate (p.append [name]) = t.into name there := by
  unfold locate at located ⊢
  split at located
  · cases located
  · next clear =>
    have zero : Path.hasZero (p.append [name]).text = false := by
      rw [Path.hasZero_text] at clear ⊢
      simp only [Path.append, List.any_append, Bool.or_eq_false_iff]
      exact ⟨by simpa using clear, by simpa using named.noZero⟩
    have root : (p.append [name]).root = p.root := rfl
    have longer : (p.append [name]).parts = p.parts ++ [name] := rfl
    rw [zero, short, root, longer]
    simp only [Bool.false_eq_true, if_false]
    split at located
    · cases located
    · split at located
      · next relative =>
        rw [if_pos relative, follow_concat named.notParent named.short, located]
        rfl
      · next absolute =>
        rw [if_neg absolute, above_concat named.notParent named.short, located]
        rfl

theorem node_of_inside (located : t.locate p = .ok (.inside place)) :
    t.node p = (t.get? place).elim (.error .missing) .ok := by
  rw [FileTree.node, located]
  rfl

theorem isDirectory_iff_node : t.isDirectory p = true ↔ t.node p = .ok .directory := by
  unfold isDirectory
  cases t.node p <;> simp [Except.toOption]

/-- What a directory lists is found on the path through the directory. -/
theorem Proper.node_child (h : t.Proper) (found : t.isDirectory p = true)
    (short : Path.isLong (p.append [name]).text = false) (child : (name, node) ∈ t.children p) :
    t.node (p.append [name]) = .ok node := by
  have listed := mem_children_iff.mp child
  have named := h.isName_of_mem_below listed name List.mem_cons_self
  obtain ⟨place, located, -, entry⟩ := mem_below_iff.mp listed
  have under : t.get? (place ++ [name]) = some node := h.get?_eq_some entry (by simp)
  have directory : t.get? place = some .directory := by
    have there := isDirectory_iff_node.mp found
    rw [node_of_inside located] at there
    cases here : t.get? place with
    | none =>
      rw [here] at there
      cases there
    | some found =>
      rw [here] at there
      exact congrArg some (Except.ok.inj there)
  have deeper : t.locate (p.append [name]) = .ok (.inside (place ++ [name])) := by
    rw [locate_concat named short located, into, if_pos ⟨directory, by simp [under]⟩]
  rw [node_of_inside deeper, under]
  rfl

theorem Proper.distinct_below (h : t.Proper) (p : Path) :
    (t.below p).Pairwise fun a b => a.1 ≠ b.1 := by
  unfold below
  split
  · next place located =>
    refine (List.pairwise_map.mp h.distinct).filterMap _ ?_
    intro a b apart x hx y hy same
    apply apart
    split at hx <;> cases hx
    next under =>
      split at hy <;> cases hy
      next under' =>
        rw [List.isPrefixOf?_eq_some_iff_append_eq] at under under'
        dsimp only at same
        rw [← under, ← under', same]
  · exact List.Pairwise.nil

theorem Proper.distinct_children (h : t.Proper) (p : Path) :
    (t.children p).Pairwise fun a b => a.1 ≠ b.1 := by
  unfold children
  refine (h.distinct_below p).filterMap _ ?_
  intro a b apart x hx y hy same
  obtain ⟨_ | ⟨first, _ | _⟩, _⟩ := a <;> cases hx
  obtain ⟨_ | ⟨second, _ | _⟩, _⟩ := b <;> cases hy
  exact apart (congrArg (fun name => [name]) same)

theorem mem_entries_of_get? (below : parts ≠ []) (found : t.get? parts = some node) :
    (parts, node) ∈ t.entries := by
  rw [get?, if_neg (by simpa using below), List.lookup_eq_some_iff] at found
  obtain ⟨before, after, eq, -⟩ := found
  rw [eq]
  exact List.mem_append_right before List.mem_cons_self

theorem above_ne_inside : above parts ≠ .ok (.inside place) := by
  intro found
  unfold above at found
  split at found
  · cases found
  · cases found

variable {target : List String} {t' : FileTree}

theorem isSome_get?_of_follow (found : t.follow place parts = .ok (.inside target)) :
    (t.get? target).isSome = true := by
  fun_induction t.follow place parts with
  | case1 place there =>
    cases found
    exact there
  | case2 | case5 | case7 => cases found
  | case3 => exact absurd found above_ne_inside
  | case4 _ _ _ _ ih | case6 _ _ _ _ _ _ ih => exact ih found

/-- A path leads to the same place in a tree that has the same directories. -/
theorem follow_of_directories
    (same : ∀ q, t.get? q = some .directory → t'.get? q = some .directory)
    (there : (t'.get? target).isSome = true)
    (found : t.follow place parts = .ok (.inside target)) :
    t'.follow place parts = .ok (.inside target) := by
  fun_induction t.follow place parts with
  | case1 place =>
    cases found
    rw [follow, if_pos there]
  | case2 | case5 | case7 => cases found
  | case3 => exact absurd found above_ne_inside
  | case4 place rest dir filled ih =>
    rw [follow, if_pos (same _ dir), if_pos rfl, if_neg filled]
    exact ih found
  | case6 place part rest dir downward fits ih =>
    rw [follow, if_pos (same _ dir), if_neg downward, if_neg fits]
    exact ih found

theorem locate_eq_inside_iff : t.locate p = .ok (.inside place) ↔
    Path.hasZero p.text = false ∧ Path.isLong p.text = false ∧ p.root = .relative ∧
      t.follow [] p.parts = .ok (.inside place) := by
  unfold locate
  by_cases zero : Path.hasZero p.text = true
  · simp [zero]
  · by_cases long : Path.isLong p.text = true
    · simp [zero, long]
    · by_cases relative : p.root = .relative
      · simp [zero, long, relative]
      · simp [zero, long, relative, above_ne_inside]

theorem locate_of_directories
    (same : ∀ q, t.get? q = some .directory → t'.get? q = some .directory)
    (there : (t'.get? place).isSome = true) (located : t.locate p = .ok (.inside place)) :
    t'.locate p = .ok (.inside place) := by
  rw [locate_eq_inside_iff] at located ⊢
  obtain ⟨zero, long, relative, found⟩ := located
  exact ⟨zero, long, relative, follow_of_directories same there found⟩

theorem Proper.get?_filter (h : t.Proper) {keep : List String × Node → Bool}
    (found : t.get? parts = some node) (kept : keep (parts, node) = true) :
    get? ⟨t.entries.filter keep⟩ parts = some node := by
  by_cases top : parts = []
  · subst top
    exact found
  · have entry := List.mem_filter.mpr ⟨mem_entries_of_get? top found, kept⟩
    exact (h.filter keep).get?_eq_some entry top

/-- Files of a directory can be deleted, and then it holds the rest. -/
theorem Proper.exists_without (h : t.Proper) (gone : List String × Node → Prop)
    (files : ∀ e ∈ t.below p, gone e → e.2 ≠ .directory) :
    ∃ t' : FileTree, t'.Proper ∧ ∀ e, e ∈ t'.below p ↔ e ∈ t.below p ∧ ¬ gone e := by
  classical
  by_cases inside : ∃ place, t.locate p = .ok (.inside place)
  · obtain ⟨place, located⟩ := inside
    let keep (e : List String × Node) : Bool :=
      decide (∀ rest, e.1 = place ++ rest → rest ≠ [] → ¬ gone (rest, e.2))
    have directories (q : List String) (found : t.get? q = some .directory) :
        get? ⟨t.entries.filter keep⟩ q = some .directory := by
      refine h.get?_filter found (decide_eq_true fun rest under filled removed => ?_)
      dsimp only at under
      subst under
      have entry := mem_entries_of_get? (by simp [filled]) found
      exact files _ (mem_below_iff.mpr ⟨place, located, filled, entry⟩) removed rfl
    have there : (get? ⟨t.entries.filter keep⟩ place).isSome = true := by
      obtain ⟨node, found⟩ := Option.isSome_iff_exists.mp
        (isSome_get?_of_follow (locate_eq_inside_iff.mp located).2.2.2)
      have kept : keep (place, node) = true := by
        refine decide_eq_true fun rest under filled _ => ?_
        exact filled (by simpa using under)
      rw [h.get?_filter found kept]
      rfl
    have located' := locate_of_directories directories there located
    refine ⟨_, h.filter keep, fun ⟨rest, node⟩ => ?_⟩
    rw [mem_below_iff, mem_below_iff]
    constructor
    · rintro ⟨place', again, filled, entry⟩
      obtain rfl : place = place' := Place.inside.inj (Except.ok.inj (located'.symm.trans again))
      obtain ⟨entry, kept⟩ := List.mem_filter.mp entry
      exact ⟨⟨place, located, filled, entry⟩, of_decide_eq_true kept rest rfl filled⟩
    · rintro ⟨⟨place', again, filled, entry⟩, stays⟩
      obtain rfl : place = place' := Place.inside.inj (Except.ok.inj (located.symm.trans again))
      refine ⟨place, located', filled, List.mem_filter.mpr ⟨entry, decide_eq_true ?_⟩⟩
      intro other under _
      rw [← List.append_cancel_left under]
      exact stays
  · refine ⟨t, h, fun e => ⟨fun listed => ?_, fun listed => listed.1⟩⟩
    obtain ⟨place, located, -⟩ := mem_below_iff.mp listed
    exact absurd ⟨place, located⟩ inside

end RubyIndex.FileTree
