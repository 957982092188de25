import RubyIndex.CommandLine
import RubyIndex.FileTree.Listing
import RubyIndex.Text.Lines
/-!
The command line. The first argument names the program, `lint` or `mcp`, and the others are its
own. The tree to work on is listed on standard input.
-/

namespace RubyIndex.Main

def settingNames : List String :=
  [Settings.stubsDirectoryVariable, Settings.versionVariable, Settings.truncateVariable,
    Settings.strictVariable]

def environment : IO Environment :=
  settingNames.filterMapM fun name => do
    return (← IO.getEnv name).map fun value => (name, value)

partial def readAll (input : IO.FS.Stream) (done : String) : IO String := do
  let line ← input.getLine
  if line.isEmpty then return done else readAll input (done ++ line)

def start (program : CommandLine.Program) (args : List String) : IO UInt32 := do
  let listing ← readAll (← IO.getStdin) ""
  let tree := FileTree.ofListing (Text.lines listing.toList)
  match CommandLine.run program args (← environment) tree with
  | .ok outcome =>
    IO.print outcome.out
    IO.eprint outcome.err
    return outcome.exitCode.toUInt32
  | .error e =>
    IO.eprintln e.message
    return 1

end RubyIndex.Main

def main : List String → IO UInt32
  | "lint" :: args => RubyIndex.Main.start .lint args
  | "mcp" :: args => RubyIndex.Main.start .mcp args
  | _ => do
    IO.eprintln "Name a program: lint or mcp."
    return 2
