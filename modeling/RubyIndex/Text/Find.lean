/-!
Searching and cutting texts: parts between separators, and texts that occur inside others.
-/

namespace RubyIndex.Text

def occursIn (part : List Char) : List Char → Bool
  | [] => part.isEmpty
  | c :: rest => part.isPrefixOf (c :: rest) || occursIn part rest

theorem occursIn_iff {part s : List Char} : occursIn part s = true ↔ part <:+: s := by
  induction s with
  | nil => simp [occursIn, List.isEmpty_iff]
  | cons c rest ih =>
    simp only [occursIn, Bool.or_eq_true, List.isPrefixOf_iff_prefix, ih, List.infix_cons_iff]

def splitAtLast? (c : Char) : List Char → Option (List Char × List Char)
  | [] => none
  | d :: rest =>
    match splitAtLast? c rest with
    | some (before, after) => some (d :: before, after)
    | none => if d = c then some ([], rest) else none

end RubyIndex.Text
