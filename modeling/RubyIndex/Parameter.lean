/-!
Parameters of Ruby methods, and how they are written in a parameter list.
-/

namespace RubyIndex

inductive ParameterKind where
  | required
  | optional
  | rest
  | keywordRequired
  | keywordOptional
  | keywordRest
  | block
  | forward
  deriving DecidableEq, Repr

/-- The name of a splat or a block may be empty. A default is kept as it is written. -/
structure Parameter where
  name : String
  kind : ParameterKind
  default : Option String := none
  deriving DecidableEq, Repr

namespace Parameter

/-- The default as it is written after the name. One that is missing is shown as `None`. -/
def defaultText (p : Parameter) : String := p.default.getD "None"

def render (p : Parameter) : String :=
  match p.kind with
  | .required => p.name
  | .optional => s!"{p.name} = {p.defaultText}"
  | .rest => s!"*{p.name}"
  | .keywordRequired => s!"{p.name}:"
  | .keywordOptional => s!"{p.name}: {p.defaultText}"
  | .keywordRest => s!"**{p.name}"
  | .block => s!"&{p.name}"
  | .forward => "..."

def isNamed (p : Parameter) : Bool := p.name != "" && p.kind != .forward

def renderList (ps : List Parameter) : String := ", ".intercalate (ps.map render)

end Parameter

end RubyIndex
