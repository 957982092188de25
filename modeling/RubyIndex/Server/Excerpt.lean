import RubyIndex.Text.Blank
/-!
Cutting long answers: the middle of a long text, and the end of a long list.
-/

namespace RubyIndex.Server

def truncationMarker : String :=
  "... [the middle portion has been truncated, retrieve the symbol directly with a larger " ++
    "limit to get the full text] ..."

/-- The last characters of a text. None of them stands for all. -/
def lastPart (count : Nat) (s : List Char) : List Char :=
  if count = 0 then s else s.drop (s.length - count)

/-- Keeps half of the allowed characters at either end of a text that is too long, unless the limit
is zero or less. -/
def truncateChars (limit : Int) (s : List Char) : List Char :=
  if limit ≤ 0 || s.length ≤ limit then s
  else
    let half := limit.toNat / 2
    Text.trim (s.take half ++ ['\n', '\n'] ++ truncationMarker.toList ++ ['\n', '\n'] ++
      lastPart half s)

def truncate (limit : Int) (text : String) : String :=
  String.ofList (truncateChars limit text.toList)

/-- The first items of a list. A limit below zero leaves out as many from the end. -/
def takeLimit {α : Type} (limit : Int) (l : List α) : List α :=
  if 0 ≤ limit then l.take limit.toNat else l.take (l.length - (-limit).toNat)

def exceeds {α : Type} (limit : Int) (l : List α) : Bool := limit < l.length

end RubyIndex.Server
