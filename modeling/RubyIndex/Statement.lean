import RubyIndex.Declaration
import RubyIndex.Parameter.Parse
import RubyIndex.Text.Find
/-!
The statements of a stub, one a line, and how a line is read. A line is trimmed before it is read,
is not empty and does not begin with `#`. The forms are tried in the order of `Statement.read`, and
a line that has none of them is kept as it is.
-/

namespace RubyIndex

inductive MixinKind where
  | incl
  | ext
  | prep
  deriving DecidableEq, Repr

/-- A line that opens a class or module. Its path may begin with `::`. It is `closed` if `; end`
follows on the line. -/
structure Header where
  kind : NamespaceKind
  path : String
  superclass : Option String := none
  closed : Bool := false
  deriving DecidableEq, Repr

/-- The parts of a `def` line. A line without parentheses has no parameter list. -/
structure Definition where
  onSelf : Bool
  name : String
  parameters : Option String
  deriving DecidableEq, Repr

inductive Statement where
  | close
  | openSingleton
  | openNamespace (header : Header)
  | define (visibility : Option Visibility) (source : String)
  | setDefault (visibility : Visibility)
  | setVisibility (visibility : Visibility) (names : List String)
  | beginModuleFunctions
  | makeModuleFunctions (names : List String)
  | alias (newName oldName : String)
  | aliasGlobal (newName oldName : String)
  | mixin (kind : MixinKind) (names : List String)
  | assignGlobal (name value : String)
  | assignConstant (name value : String)
  | unrecognized (source : String)
  deriving DecidableEq, Repr

namespace Statement

open Text

def word? (word : String) (s : List Char) : Option (List Char) := word.toList.isPrefixOf? s

def afterWord? (word : String) (s : List Char) : Option (List Char) :=
  match word? word s with
  | some (c :: rest) => if isBlank c then some (trimLeft rest) else none
  | _ => none

def argumentOf? (word : String) (s : List Char) : Option (Option (List Char)) :=
  if s = word.toList then some none else (afterWord? word s).map some

def isClose (s : List Char) : Bool :=
  match argumentOf? "end" s with
  | some none => true
  | some (some rest) => rest.head? == some '#'
  | none => false

def isOpenSingleton (s : List Char) : Bool :=
  match word? "class" s with
  | none => false
  | some rest =>
    match word? "<<" (trimLeft rest) with
    | none => false
    | some rest => trimLeft rest == "self".toList

/-- Splits off the name of a constant: an ASCII capital and all word characters after it. -/
def takeConstant? : List Char → Option (List Char × List Char)
  | [] => none
  | c :: rest =>
    if isCapital c then
      let (more, after) := rest.span isWord
      some (c :: more, after)
    else none

/-- Splits off the further segments of a path. `fuel` bounds their number. -/
def takeSegments : (fuel : Nat) → List Char → List Char × List Char
  | fuel + 1, ':' :: ':' :: rest =>
    match takeConstant? rest with
    | some (name, after) =>
      let (more, rest) := takeSegments fuel after
      (':' :: ':' :: name ++ more, rest)
    | none => ([], ':' :: ':' :: rest)
  | _, s => ([], s)

def takePath? (s : List Char) : Option (List Char × List Char) :=
  let (root, s) := match s with
    | ':' :: ':' :: rest => ([':', ':'], rest)
    | _ => ([], s)
  match takeConstant? s with
  | some (name, after) =>
    let (more, rest) := takeSegments after.length after
    some (root ++ name ++ more, rest)
  | none => none

def closing? (s : List Char) : Option Bool :=
  if s.isEmpty then some false
  else
    match trimLeft s with
    | ';' :: rest => if trimLeft rest == "end".toList then some true else none
    | _ => none

def takeSuperclass? (s : List Char) : Option (List Char × List Char) :=
  match trimLeft s with
  | '<' :: rest =>
    let (name, after) := (trimLeft rest).span fun c => !isBlank c && c != ';'
    if name.isEmpty then none else some (name, after)
  | _ => none

def classHeader? (s : List Char) : Option Header := do
  let (path, rest) ← takePath? (← afterWord? "class" s)
  match takeSuperclass? rest with
  | some (superclass, rest) =>
    let closed ← closing? rest
    some ⟨.klass, String.ofList path, some (String.ofList superclass), closed⟩
  | none =>
    let closed ← closing? rest
    some ⟨.klass, String.ofList path, none, closed⟩

def moduleHeader? (s : List Char) : Option Header := do
  let (path, rest) ← takePath? (← afterWord? "module" s)
  let closed ← closing? rest
  some ⟨.modul, String.ofList path, none, closed⟩

def startsDefinition (s : List Char) : Bool :=
  match word? "def" s with
  | some [] => true
  | some (c :: _) => !isWord c
  | none => false

def operators : List String :=
  ["[]", "[]=", "<=>", "==", "===", "=~", "!=", "!~", "!", "+@", "-@", "~", "~@", "**", "<<", ">>",
    "<=", ">=", "-", "+", "*", "/", "%", "&", "|", "^", "<", ">", "\x60"]

/-- An operator, or an identifier that `?`, `!` or `=` may follow. -/
def isMethodName (s : List Char) : Bool :=
  operators.contains (String.ofList s) ||
    match Parameter.takeIdentifier? s with
    | some (_, rest) => rest.isEmpty || rest == ['?'] || rest == ['!'] || rest == ['=']
    | none => false

/-- The end of a `def` line after its name: a parameter list and `end`, `; end`, or `end` after a
blank. The list reaches to the last closing parenthesis. -/
def definitionTail? (s : List Char) : Option (Option String) :=
  match trimLeft s with
  | '(' :: rest => do
    let (parameters, after) ← splitAtLast? ')' rest
    let after := trimLeft after
    let after := match after with
      | ';' :: more => trimLeft more
      | _ => after
    if after == "end".toList then some (some (String.ofList parameters)) else none
  | ';' :: rest => if trimLeft rest == "end".toList then some none else none
  | rest => if rest == "end".toList && s != rest then some none else none

def definition? (s : List Char) : Option Definition := do
  let rest ← afterWord? "def" s
  let (onSelf, rest) := match word? "self." rest with
    | some rest => (true, rest)
    | none => (false, rest)
  let (name, tail) := rest.span fun c => !isBlank c && c != '(' && c != ';'
  if isMethodName name then
    let parameters ← definitionTail? tail
    some ⟨onSelf, String.ofList name, parameters⟩
  else none

/-- A name in an argument list, without a colon or quotes around it. -/
def argumentName (s : List Char) : String :=
  String.ofList (trimSet (fun c => c == '\'' || c == '"') ((trim s).dropWhile (· == ':')))

def argumentNames (s : List Char) : List String := (s.splitOn ',').map argumentName

def withVisibility (v : Visibility) : Option (List Char) → Statement
  | none => .setDefault v
  | some s =>
    if startsDefinition s then .define (some v) (String.ofList s)
    else .setVisibility v (argumentNames s)

def visibility? (s : List Char) : Option Statement :=
  (argumentOf? "private" s).map (withVisibility .priv) <|>
    (argumentOf? "protected" s).map (withVisibility .prot) <|>
    (argumentOf? "public" s).map (withVisibility .pub)

def moduleFunction? (s : List Char) : Option Statement :=
  (argumentOf? "module_function" s).map fun
    | none => .beginModuleFunctions
    | some names => .makeModuleFunctions (argumentNames names)

def symbolName (s : List Char) : String := String.ofList (s.dropWhile (· == ':'))

def takeRun (s : List Char) : List Char × List Char := s.span (!isBlank ·)

/-- `alias new old`. Unless both name global variables, colons before the names are left out. -/
def alias? (s : List Char) : Option Statement := do
  let (newName, rest) := takeRun (← afterWord? "alias" s)
  let oldName := trimLeft rest
  if newName.isEmpty || oldName.isEmpty || oldName.any isBlank then none
  else if newName.head? == some '$' && oldName.head? == some '$' then
    some (.aliasGlobal (String.ofList newName) (String.ofList oldName))
  else some (.alias (symbolName newName) (symbolName oldName))

def mixinNames (s : List Char) : List String :=
  (((s.splitOn ',').map trim).filter (!·.isEmpty)).map String.ofList

def mixin? (s : List Char) : Option Statement :=
  (afterWord? "include" s).map (fun names => .mixin .incl (mixinNames names)) <|>
    (afterWord? "extend" s).map (fun names => .mixin .ext (mixinNames names)) <|>
    (afterWord? "prepend" s).map fun names => .mixin .prep (mixinNames names)

def globalAssignment? (s : List Char) : Option Statement :=
  match takeRun s with
  | (name@('$' :: _ :: _), rest) =>
    match trimLeft rest with
    | '=' :: after =>
      let value := trim after
      if value.isEmpty || after.head?.all (!isBlank ·) then none
      else some (.assignGlobal (String.ofList name) (String.ofList value))
    | _ => none
  | _ => none

def constantAssignment? (s : List Char) : Option Statement := do
  let (name, rest) ← takeConstant? s
  match trimLeft rest with
  | '=' :: after =>
    let value := trim after
    if value.isEmpty then none
    else some (.assignConstant (String.ofList name) (String.ofList value))
  | _ => none

def read (s : List Char) : Statement :=
  if isClose s then .close
  else if isOpenSingleton s then .openSingleton
  else if startsDefinition s then .define none (String.ofList s)
  else
    let form :=
      (classHeader? s).map openNamespace <|> (moduleHeader? s).map openNamespace <|>
        visibility? s <|> moduleFunction? s <|> alias? s <|> mixin? s <|> globalAssignment? s <|>
        constantAssignment? s
    form.getD (.unrecognized (String.ofList s))

end Statement

end RubyIndex
