import RubyIndex.Text.Blank
import RubyIndex.Text.Digit
import RubyIndex.Text.Quoted
/-!
Ruby versions by their first two numbers. A version is read from `2.7`, from `3.3.4` or
`3.3.0-preview1`, whose third number and tag are left out, and from the name of the directory that
holds its stubs, such as `rubystubs27`.
-/

namespace RubyIndex

structure Version where
  major : Nat
  minor : Nat
  deriving DecidableEq, Repr

inductive VersionError where
  | badFormat (text : String)
  | badDirectoryName (text : String)
  deriving DecidableEq, Repr

def VersionError.message : VersionError → String
  | .badFormat text => s!"Invalid version format: {Text.quoted text}"
  | .badDirectoryName text => s!"Invalid snapshot directory name: {Text.quoted text}"

namespace Version

def text (v : Version) : String := s!"{v.major}.{v.minor}"

def directoryPrefix : String := "rubystubs"

def directoryName (v : Version) : String := s!"{directoryPrefix}{v.major}{v.minor}"

/-- The major number decides, then the minor number. -/
def lt (a b : Version) : Bool :=
  a.major < b.major || (a.major == b.major && a.minor < b.minor)

def le (a b : Version) : Bool := a.lt b || a == b

theorem lt_iff {a b : Version} :
    a.lt b = true ↔ a.major < b.major ∨ a.major = b.major ∧ a.minor < b.minor := by
  simp [lt]

theorem le_iff {a b : Version} : a.le b = true ↔ a.lt b = true ∨ a = b := by
  simp [le]

theorem le_total (a b : Version) : (a.le b || b.le a) = true := by
  obtain ⟨a₁, a₂⟩ := a
  obtain ⟨b₁, b₂⟩ := b
  simp only [Bool.or_eq_true, le_iff, lt_iff, Version.mk.injEq]
  omega

theorem le_trans (a b c : Version) (h : a.le b = true) (k : b.le c = true) :
    a.le c = true := by
  obtain ⟨a₁, a₂⟩ := a
  obtain ⟨b₁, b₂⟩ := b
  obtain ⟨c₁, c₂⟩ := c
  simp only [le_iff, lt_iff, Version.mk.injEq] at *
  omega

def sort (versions : List Version) : List Version := versions.mergeSort le

def isTag : List Char → Bool
  | c :: rest => (c == '-' || c == '.') && !rest.isEmpty &&
      rest.all fun d => d.isAlphanum || d == '.'
  | [] => false

def isSuffix (s : List Char) : Bool :=
  s.isEmpty || isTag s ||
    match s with
    | '.' :: t =>
      let (patch, rest) := Text.takeDigits t
      !patch.isEmpty && (rest.isEmpty || isTag rest)
    | _ => false

def ofDotted? (s : List Char) : Option Version :=
  match Text.takeDigits s with
  | (major, '.' :: t) =>
    let (minor, rest) := Text.takeDigits t
    if !major.isEmpty && !minor.isEmpty && isSuffix rest then
      some ⟨Text.numeral major, Text.numeral minor⟩
    else none
  | _ => none

/-- The first digit is the major number, all others are the minor number. One line feed may
follow. -/
def ofDirectoryChars? (s : List Char) : Option Version :=
  match directoryPrefix.toList.isPrefixOf? s with
  | none => none
  | some t =>
    match Text.takeDigits t with
    | (major :: minor, rest) =>
      if !minor.isEmpty && (rest == [] || rest == ['\n']) then
        some ⟨Text.numeral [major], Text.numeral minor⟩
      else none
    | _ => none

def ofDirectoryName (name : String) : Except VersionError Version :=
  match ofDirectoryChars? name.toList with
  | some v => .ok v
  | none => .error (.badDirectoryName name)

def parse (source : String) : Except VersionError Version :=
  let s := Text.trim source.toList
  if directoryPrefix.toList.isPrefixOf s then ofDirectoryName (String.ofList s)
  else
    match ofDotted? s with
    | some v => .ok v
    | none => .error (.badFormat (String.ofList s))

def greatest? : List Version → Option Version
  | [] => none
  | v :: rest =>
    match greatest? rest with
    | none => some v
    | some w => some (if v.lt w then w else v)

/-- The version itself if it is a candidate, else the greatest candidate below it. -/
def closest? (v : Version) (candidates : List Version) : Option Version :=
  if candidates.contains v then some v else greatest? (candidates.filter (·.lt v))

def supported : List Version :=
  [⟨1, 8⟩, ⟨1, 9⟩, ⟨2, 0⟩, ⟨2, 1⟩, ⟨2, 2⟩, ⟨2, 3⟩, ⟨2, 4⟩, ⟨2, 5⟩, ⟨2, 6⟩, ⟨2, 7⟩, ⟨3, 0⟩,
    ⟨3, 1⟩, ⟨3, 2⟩, ⟨3, 3⟩, ⟨3, 4⟩]

end Version

end RubyIndex
