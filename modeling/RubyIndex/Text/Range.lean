/-!
Sets of characters given by ranges of code points, the form in which tables of character
properties are written.
-/

namespace RubyIndex.Text

def inRanges (ranges : List (Nat × Nat)) (code : Nat) : Bool :=
  ranges.any fun r => r.1 ≤ code && code ≤ r.2

theorem inRanges_iff {ranges : List (Nat × Nat)} {code : Nat} :
    inRanges ranges code = true ↔ ∃ r ∈ ranges, r.1 ≤ code ∧ code ≤ r.2 := by
  simp [inRanges]

end RubyIndex.Text
