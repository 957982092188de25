import RubyIndex.Parameter
import RubyIndex.Parameter.Split
import RubyIndex.Text.Word
/-!
Reading parameters from a `def` line. What has none of the known forms, such as the pattern
`(a, b)`, is a required parameter that is named as it is written.
-/

namespace RubyIndex.Parameter

/-- Splits off the identifier at the start: an ASCII letter or an underscore, and then all word
characters that follow. -/
def takeIdentifier? : List Char → Option (List Char × List Char)
  | [] => none
  | c :: rest =>
    if Text.startsIdentifier c then
      let (more, after) := rest.span Text.isWord
      some (c :: more, after)
    else none

def defaultOf? (s : List Char) : Option (List Char) :=
  let value := Text.trimLeft s
  if value.isEmpty || value.contains '\n' then none else some (Text.trim value)

def named (kind : ParameterKind) (name : List Char) : Parameter :=
  ⟨String.ofList (Text.trim name), kind, none⟩

def keyword? (s : List Char) : Option Parameter :=
  match takeIdentifier? s with
  | some (name, ':' :: rest) =>
    if rest.isEmpty then some ⟨String.ofList name, .keywordRequired, none⟩
    else (defaultOf? rest).map fun value =>
      ⟨String.ofList name, .keywordOptional, some (String.ofList value)⟩
  | _ => none

def optional? (s : List Char) : Option Parameter :=
  match takeIdentifier? s with
  | some (name, rest) =>
    match Text.trimLeft rest with
    | '=' :: value => (defaultOf? value).map fun value =>
        ⟨String.ofList name, .optional, some (String.ofList value)⟩
    | _ => none
  | none => none

def parseChars (source : List Char) : Parameter :=
  match Text.trim source with
  | ['.', '.', '.'] => ⟨"", .forward, none⟩
  | '&' :: name => named .block name
  | '*' :: '*' :: name => named .keywordRest name
  | '*' :: name => named .rest name
  | s => (keyword? s).getD ((optional? s).getD ⟨String.ofList s, .required, none⟩)

def parse (source : String) : Parameter := parseChars source.toList

/-- Reads a parameter list. A `def` line without parentheses has none, which is an empty list. -/
def parseList : Option String → Except Unbalanced (List Parameter)
  | none => .ok []
  | some source => do
    if Text.blankText source.toList then .ok []
    else
      let parts ← split source
      .ok (parts.map parse)

end RubyIndex.Parameter
