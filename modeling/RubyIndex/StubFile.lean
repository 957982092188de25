import RubyIndex.Declaration
import RubyIndex.Text.Quoted
/-!
Stub files: what one declares, what its reader could not place, and why one cannot be read.
-/

namespace RubyIndex

structure Diagnostic where
  source : String
  line : Nat
  deriving DecidableEq, Repr

namespace Diagnostic

def code : String := "unrecognized-statement"

def message (d : Diagnostic) : String := s!"Unrecognized statement: {d.source}"

end Diagnostic

/-- Namespaces are listed in the order in which they are opened, outer before inner. -/
structure StubFile where
  path : String
  namespaces : List Namespace := []
  globals : List GlobalVariable := []
  diagnostics : List Diagnostic := []
  deriving DecidableEq, Repr

/-- The first explicit namespace that is not nested, or else the first explicit one. -/
def StubFile.primary? (f : StubFile) : Option Namespace :=
  let declared := f.namespaces.filter (!·.implicit)
  (declared.find? (·.isTopLevel)).or declared.head?

inductive ParseFault where
  | unexpectedEnd
  | unclosed (owner : String)
  | malformedDefinition (statement : String)
  | invalidParameters (parameters : String)
  deriving DecidableEq, Repr

structure ParseError where
  path : String
  line : Nat
  fault : ParseFault
  deriving DecidableEq, Repr

def withDetails (message : String) (details : List (String × String)) : String :=
  let listed := ", ".intercalate (details.map fun d => d.1 ++ ": " ++ d.2)
  s!"{message} ({listed})"

namespace ParseError

def reason (e : ParseError) : String :=
  match e.fault with
  | .unexpectedEnd => "Unexpected \x60end\x60 with no open scope"
  | .unclosed _ => "Scope was not closed before the end of the file"
  | .malformedDefinition _ => "Malformed method definition"
  | .invalidParameters _ => "Invalid parameter list"

def details (e : ParseError) : List (String × String) :=
  match e.fault with
  | .unexpectedEnd => []
  | .unclosed owner => [("namespace", owner)]
  | .malformedDefinition statement => [("statement", statement)]
  | .invalidParameters parameters => [("parameters", parameters)]

def message (e : ParseError) : String :=
  withDetails e.reason ([("path", e.path), ("line", toString e.line)] ++ e.details)

end ParseError

end RubyIndex
