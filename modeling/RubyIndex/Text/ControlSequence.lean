/-!
Control sequences of terminals, which set colours and the like: the escape character, an opening
bracket, parameters, intermediate characters, and a final character. All of them are ASCII.
-/

namespace RubyIndex.Text

def isParameter (c : Char) : Bool := '0' ≤ c && c ≤ '?'

def isIntermediate (c : Char) : Bool := ' ' ≤ c && c ≤ '/'

def isFinal (c : Char) : Bool := '@' ≤ c && c ≤ '~'

def afterSequence? : List Char → Option (List Char)
  | '\x1b' :: '[' :: rest =>
    match (rest.dropWhile isParameter).dropWhile isIntermediate with
    | c :: rest => if isFinal c then some rest else none
    | [] => none
  | _ => none

theorem length_lt_of_afterSequence? {s rest : List Char} (h : afterSequence? s = some rest) :
    rest.length < s.length := by
  unfold afterSequence? at h
  split at h
  · next inner =>
    split at h
    · next c after hd =>
      split at h
      · obtain rfl : after = rest := by simpa using h
        have hle := ((List.dropWhile_suffix isIntermediate).trans
          (List.dropWhile_suffix (l := inner) isParameter)).length_le
        rw [hd] at hle
        simp only [List.length_cons] at hle ⊢
        omega
      · simp at h
    · simp at h
  · simp at h

def dropSequences (s : List Char) : List Char :=
  match _h : afterSequence? s with
  | some rest => dropSequences rest
  | none =>
    match s with
    | [] => []
    | c :: rest => c :: dropSequences rest
termination_by s.length
decreasing_by
  · exact length_lt_of_afterSequence? ‹_›
  · simp

end RubyIndex.Text
