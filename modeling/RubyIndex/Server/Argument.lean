import RubyIndex.Decimal
import RubyIndex.Text.WholeNumber
/-!
Arguments of a tool call as a client sends them. Flags and whole numbers may also be written as
text, and whole numbers stand for flags and the other way round. A number with a point is taken
where it stands for a whole number.
-/

namespace RubyIndex.Server

inductive Argument where
  | null
  | flag (value : Bool)
  | number (value : Int)
  | decimal (value : Decimal)
  | text (value : String)
  | list (items : List Argument)
  | other
  deriving Repr, Inhabited

abbrev Arguments := List (String × Argument)

namespace Argument

def text? : Argument → Option String
  | .text value => some value
  | _ => none

def textList? : Argument → Option (List String)
  | .list items => items.mapM text?
  | _ => none

def optional? {α : Type} (read : Argument → Option α) : Argument → Option (Option α)
  | .null => some none
  | a => (read a).map some

def flagOfNumber? (n : Int) : Option Bool :=
  if n = 0 then some false else if n = 1 then some true else none

def flag? : Argument → Option Bool
  | .flag value => some value
  | .number value => flagOfNumber? value
  | .decimal value => value.toWhole?.bind flagOfNumber?
  | .text value =>
    let lowered := String.ofList (value.toList.map Char.toLower)
    if ["1", "on", "t", "true", "y", "yes"].contains lowered then some true
    else if ["0", "off", "f", "false", "n", "no"].contains lowered then some false
    else none
  | _ => none

def number? : Argument → Option Int
  | .number value => some value
  | .decimal value => value.toWhole?
  | .flag value => some (if value then 1 else 0)
  | .text value => Text.WholeNumber.read? value.toList
  | _ => none

def count? (a : Argument) : Option Int := a.number?.filter (1 ≤ ·)

end Argument

namespace Arguments

def required? {α : Type} (args : Arguments) (name : String) (read : Argument → Option α) :
    Option α :=
  (args.lookup name).bind read

def optional? {α : Type} (args : Arguments) (name : String) (default : α)
    (read : Argument → Option α) : Option α :=
  match args.lookup name with
  | none => some default
  | some a => read a

end Arguments

end RubyIndex.Server
