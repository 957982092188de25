import RubyIndex.Text.Quoted
/-!
JSON documents, written over several lines with an indent of two spaces and in ASCII only.
Characters beyond ASCII are escaped by their UTF-16 units.
-/

namespace RubyIndex

inductive Json where
  | flag (value : Bool)
  | null
  | number (value : Nat)
  | text (value : String)
  | list (items : List Json)
  | object (fields : List (String × Json))
  deriving Repr

namespace Json

def escapeUnit (n : Nat) : List Char := '\\' :: 'u' :: Text.hexDigits 4 n

def escapeChar (c : Char) : List Char :=
  let n := c.toNat
  if c = '"' || c = '\\' then ['\\', c]
  else if c = '\n' then ['\\', 'n']
  else if c = '\r' then ['\\', 'r']
  else if c = '\t' then ['\\', 't']
  else if n = 8 then ['\\', 'b']
  else if n = 12 then ['\\', 'f']
  else if 32 ≤ n && n < 127 then [c]
  else if n < 0x10000 then escapeUnit n
  else
    let m := n - 0x10000
    escapeUnit (0xD800 + m / 0x400) ++ escapeUnit (0xDC00 + m % 0x400)

def quoteText (s : String) : String :=
  String.ofList ('"' :: s.toList.flatMap escapeChar ++ ['"'])

def newLine (depth : Nat) : String := "\n" ++ String.ofList (List.replicate (2 * depth) ' ')

/-- Items between brackets, each on a line of its own. Without items the brackets touch. -/
def enclose (depth : Nat) (opener closer : String) (items : List String) : String :=
  if items.isEmpty then opener ++ closer
  else
    let separator := "," ++ newLine (depth + 1)
    opener ++ newLine (depth + 1) ++ separator.intercalate items ++ newLine depth ++ closer

mutual

def render (depth : Nat) : Json → String
  | .null => "null"
  | .flag value => if value then "true" else "false"
  | .number value => toString value
  | .text value => quoteText value
  | .list items => enclose depth "[" "]" (renderItems (depth + 1) items)
  | .object fields => enclose depth "\x7b" "\x7d" (renderFields (depth + 1) fields)

def renderItems (depth : Nat) : List Json → List String
  | [] => []
  | item :: rest => render depth item :: renderItems depth rest

def renderFields (depth : Nat) : List (String × Json) → List String
  | [] => []
  | (name, value) :: rest =>
    (quoteText name ++ ": " ++ render depth value) :: renderFields depth rest

end

end Json

end RubyIndex
