import ModelRelay.CommandLine
import ModelRelay.Config.Url

/-!
# The program

Reads the command line, the environment and the configured file, starts the relay, and serves. The
program itself has no way to the network: binding an address is what it cannot do, and it says so.
-/

set_option autoImplicit false

open ModelRelay

/-- The variables that the relay looks at, with those that name a channel's key. -/
def readEnvironment (names : List String) : IO Config.Environment := do
  let pairs ← names.mapM fun name => return (name, ← IO.getEnv name)
  return fun name => (pairs.lookup name).join

/-- Reads the file that is named. -/
def readSource (path : Option String) : IO Config.Source := do
  match path with
  | none => return .unnamed
  | some path =>
    try
      let bytes ← IO.FS.readBinFile path
      return .file path bytes.data.toList
    catch e =>
      return .missing path (toString e)

/-- The variables that hold keys of channels. -/
def keyVariables (source : Config.Source) : List String :=
  match source.read with
  | .ok config => config.channels.filterMap (·.apiKeyVariable)
  | .error _ => []

def main (args : List String) : IO UInt32 := do
  let env ← readEnvironment [CommandLine.configVariable]
  match CommandLine.read env none args with
  | .help =>
    IO.println (CommandLine.helpText env)
    return 0
  | .version =>
    IO.println CommandLine.versionLine
    return 0
  | .misuse =>
    IO.eprintln ("error: invalid arguments\n\n" ++ CommandLine.helpText env)
    return 2
  | .run path =>
    let source ← readSource path
    let env ← readEnvironment
      ([Config.hostVariable, Config.numberVariable, LogFilter.variableName] ++ keyVariables source)
    match CommandLine.start Config.Url.parse source env
        fun _ => .failed "no way to the network" with
    | .ok (address, _) =>
      IO.eprintln (CommandLine.StartFault.bind address "no way to the network").line
      return 1
    | .error fault =>
      IO.eprintln fault.line
      return 1
