/-!
How alike two texts are: twice the number of characters in common blocks, divided by the number
of all characters. The blocks are found by taking the longest one first and searching both sides
of it. Against a target of 200 characters or more, a character that makes up more than one
hundredth of it cannot begin the search for a block, but may extend one.
-/

namespace RubyIndex.Text.Similarity

structure Block where
  left : Nat
  right : Nat
  size : Nat
  deriving DecidableEq, Repr

/-- The characters of the target that anchor no block. -/
def frequent (target : List Char) : List Char :=
  if target.length < 200 then []
  else target.eraseDups.filter fun c => target.length / 100 + 1 < target.count c

/-- For each end in `right`, the length of the block that ends there and at the character `c`
of the other text. `lengths` holds the same for the character before `c`. -/
def extendBlocks (anchors : Char → Bool) (c : Char) : (before : Nat) → (right : List Char) →
    (lengths : List Nat) → List Nat
  | before, d :: right, n :: lengths =>
    (if d = c && anchors d then before + 1 else 0) :: extendBlocks anchors c n right lengths
  | before, d :: right, [] =>
    (if d = c && anchors d then before + 1 else 0) :: extendBlocks anchors c 0 right []
  | _, [], _ => []

/-- The longer of the best block so far and the blocks that end after position `i` on the left
and after the positions from `j` on the right. The earlier one wins a tie. -/
def longestOf (i : Nat) : (j : Nat) → (lengths : List Nat) → Block → Block
  | _, [], best => best
  | j, n :: lengths, best =>
    longestOf i (j + 1) lengths
      (if best.size < n then ⟨i + 1 - n, j + 1 - n, n⟩ else best)

def longestAnchored (anchors : Char → Bool) (right : List Char) : (i : Nat) → (left : List Char) →
    (lengths : List Nat) → Block → Block
  | _, [], _, best => best
  | i, c :: left, lengths, best =>
    let next := extendBlocks anchors c 0 right lengths
    longestAnchored anchors right (i + 1) left next (longestOf i 0 next best)

def commonPrefix : List Char → List Char → Nat
  | c :: left, d :: right => if c = d then commonPrefix left right + 1 else 0
  | _, _ => 0

def longestBlock (anchors : Char → Bool) (left right : List Char) : Block :=
  let b := longestAnchored anchors right 0 left [] ⟨0, 0, 0⟩
  let before := commonPrefix (left.take b.left).reverse (right.take b.right).reverse
  let after := commonPrefix (left.drop (b.left + b.size)) (right.drop (b.right + b.size))
  ⟨b.left - before, b.right - before, before + b.size + after⟩

def matched (anchors : Char → Bool) (left right : List Char) : Nat :=
  match longestBlock anchors left right with
  | ⟨i, j, size⟩ =>
    if _h : 0 < size ∧ i + size ≤ left.length then
      matched anchors (left.take i) (right.take j) + size +
        matched anchors (left.drop (i + size)) (right.drop (j + size))
    else 0
termination_by left.length
decreasing_by
  · simp only [List.length_take]; omega
  · simp only [List.length_drop]; omega

structure Scored where
  text : String
  common : Nat
  total : Nat
  deriving DecidableEq, Repr

def score (target candidate : String) : Scored :=
  let t := target.toList
  let c := candidate.toList
  if c.length + t.length = 0 then ⟨candidate, 1, 1⟩
  else
    let frequent := frequent t
    ⟨candidate, 2 * matched (fun d => !frequent.contains d) c t, c.length + t.length⟩

def Scored.isClose (s : Scored) : Bool := 3 * s.total ≤ 5 * s.common

/-- More alike comes first, and of equally alike texts the greater one. -/
def Scored.before (s t : Scored) : Bool :=
  t.common * s.total < s.common * t.total ||
    (s.common * t.total == t.common * s.total && t.text ≤ s.text)

def closest (limit : Nat) (target : String) (candidates : List String) : List String :=
  ((((candidates.map (score target)).filter Scored.isClose).mergeSort Scored.before).take
    limit).map Scored.text

end RubyIndex.Text.Similarity
