import RubyIndex.FileTree
/-!
A tree written as lines of text: `dir PATH` for a directory and `file PATH BYTES` for a file, with
its bytes in hexadecimal. Paths hold no blanks.
-/

namespace RubyIndex.FileTree

def hexValue? (c : Char) : Option Nat :=
  if '0' ≤ c && c ≤ '9' then some (c.toNat - 48)
  else if 'a' ≤ c && c ≤ 'f' then some (c.toNat - 87)
  else if 'A' ≤ c && c ≤ 'F' then some (c.toNat - 55)
  else none

def hexBytes? : List Char → Option (List UInt8)
  | [] => some []
  | c :: d :: rest => do
    let high ← hexValue? c
    let low ← hexValue? d
    let bytes ← hexBytes? rest
    some ((16 * high + low).toUInt8 :: bytes)
  | [_] => none

/-- Adds the entry that a line describes. Any other line adds none. -/
def addListed (t : FileTree) (line : List Char) : FileTree :=
  match (line.splitOn ' ').map String.ofList with
  | ["dir", path] => t.makeDirectory (Path.ofString path).parts
  | ["file", path, bytes] =>
    match hexBytes? bytes.toList with
    | some bytes => t.writeFile (Path.ofString path).parts bytes
    | none => t
  | _ => t

def ofListing (lines : List (List Char)) : FileTree := lines.foldl addListed {}

end RubyIndex.FileTree
