import RubyIndex.StubFile
import RubyIndex.Text.Utf8
import RubyIndex.Version
/-!
Why a snapshot cannot be found or loaded.
-/

namespace RubyIndex

inductive ContentFault where
  | notText (fault : Text.Utf8.Fault)
  | notStubs (error : ParseError)
  deriving DecidableEq, Repr

def ContentFault.message : ContentFault → String
  | .notText fault => fault.message
  | .notStubs error => error.message

inductive CorpusError where
  | directoryMissing (directory : String)
  | pathTooLong (path : String)
  | notFound (requested : Option Version) (available : List Version) (directory : String)
  | fileFault (version : Version) (path : String) (fault : ContentFault)
  | directoryAsFile (path : String)
  | badVersion (error : VersionError)
  deriving DecidableEq, Repr

def CorpusError.message : CorpusError → String
  | .directoryMissing directory =>
    withDetails "The stubs directory does not exist." [("stubs_dir", directory)]
  | .pathTooLong path => s!"[Errno 36] File name too long: {Text.quoted path}"
  | .notFound requested available directory =>
    let listed := if available.isEmpty then "none" else ", ".intercalate (available.map (·.text))
    withDetails "No stub snapshot matches the requested Ruby version."
      ((requested.map fun v => ("requested", v.text)).toList ++
        [("available", listed), ("stubs_dir", directory)])
  | .fileFault version path fault =>
    withDetails "A stub file could not be loaded."
      [("version", version.text), ("path", path), ("message", fault.message)]
  | .directoryAsFile path => s!"[Errno 21] Is a directory: {Text.quoted path}"
  | .badVersion error => error.message

end RubyIndex
