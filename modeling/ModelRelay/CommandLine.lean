import ModelRelay.Config.Loading
import ModelRelay.LogFilter

/-!
# The command line

The relay takes one option, the file that it is configured by. Options are read from left to right:
the first that is wrong ends the reading, and so does a wish for help or for the version. Starting
goes on in steps, and stops at the first that fails.
-/

set_option autoImplicit false

namespace ModelRelay

/-- What a command line asks for. -/
inductive Command where
  | run (config : Option String)
  | help
  | version
  | misuse
deriving DecidableEq, Repr

namespace CommandLine

/-- The name that the program goes by. -/
def programName : String := "llm-relay-gateway"

def programVersion : String := "0.1.0"

/-- The variable that names the file if no option does. -/
def configVariable : String := "GATEWAY_CONFIG"

/-- A word that cannot be the value of an option before it. -/
def isOption (word : String) : Bool :=
  word.toList.head? == some '-' && word != "-"

/-- What is behind a beginning, if a word begins so. -/
def behind? (start word : String) : Option String :=
  if start.toList.isPrefixOf word.toList then
    some (String.ofList (word.toList.drop start.length))
  else none

/-- Reading goes on with a file, or ends. -/
inductive Progress where
  | done (command : Command)
  /-- A value for the file. -/
  | value (file : String)
  /-- The value is the next word. -/
  | valueNext

/-- What a word of one dash says: options of one letter, the last of them with its value. -/
def letters : List Char → Progress
  | 'h' :: _ => .done .help
  | 'V' :: _ => .done .version
  | ['c'] => .valueNext
  | 'c' :: '=' :: file => .value (String.ofList file)
  | 'c' :: file => .value (String.ofList file)
  | _ => .done .misuse

/-- What a word says that is no value. -/
def option (word : String) : Progress :=
  match word.toList with
  | '-' :: '-' :: name =>
    match String.ofList name with
    | "help" => .done .help
    | "version" => .done .version
    | "config" => .valueNext
    | name => ((behind? "config=" name).map Progress.value).getD (.done .misuse)
  | '-' :: cs => letters cs
  | _ => .done .misuse

/-- The command at the end of the words. -/
def finish (env : Config.Environment) (config : Option String) : Command :=
  match config.or (env configVariable) with
  | some "" => .misuse
  | config => .run config

/-- Reads words one after the other. The file is named once, and not by an empty name. -/
def read (env : Config.Environment) (config : Option String) : List String → Command
  | [] => finish env config
  | ["--"] => finish env config
  | word :: rest =>
    match option word with
    | .done command => command
    | .value file =>
      if config.isSome || file.isEmpty then .misuse else read env (some file) rest
    | .valueNext =>
      match rest with
      | [] => .misuse
      | file :: rest =>
        if config.isSome || file.isEmpty || isOption file then .misuse
        else read env (some file) rest

/-! ## Starting -/

/-- What keeps the relay from serving. -/
inductive StartFault where
  | load (fault : Config.Fault)
  | logLevel (level detail : String)
  | channels (fault : Config.Fault)
  | bind (address detail : String)
deriving DecidableEq, Repr

def StartFault.message : StartFault → String
  | load fault => "Failed to load configuration: " ++ fault.message
  | logLevel level detail =>
    "Failed to initialize logging: Invalid log level: " ++ level ++ ": " ++ detail
  | channels fault => fault.message
  | bind address detail => "Failed to bind " ++ address ++ ": " ++ detail

/-- The line that a failed start ends with. -/
def StartFault.line (f : StartFault) : String :=
  programName ++ ": " ++ f.message

/-- All that is done before the relay listens: the address it is to listen at, and its server. -/
def start (parse : Config.UrlParser) (source : Config.Source) (env : Config.Environment)
    (send : Post → Exchange) : Except StartFault (String × Http.Server) := do
  let config ← (Config.load parse source env).mapError .load
  if (LogFilter.inForce? env config.logging.level).isNone then
    throw (.logLevel config.logging.level "invalid filter directive")
  let server ← (config.server env send).mapError .channels
  return (config.listen.address, server)

def versionLine : String :=
  programName ++ " " ++ programVersion

/-- Adds a word to lines of a width; the last line comes first. A word goes on the current line if
there is room for it. -/
def addWord (width : Nat) (lines : List String) (word : String) : List String :=
  match lines with
  | [] => [word]
  | line :: before =>
    if line.length + 1 + word.length ≤ width then (line ++ " " ++ word) :: before
    else word :: line :: before

/-- A text in lines of a width, broken between words. -/
def wrap (width : Nat) (text : String) : List String :=
  ((text.splitOn " ").foldl (addWord width) []).reverse

/-- The columns of a help text, and how many of them the names of options take. -/
def helpWidth : Nat × Nat := (100, 25)

/-- What is said of the file's option: it may come from a variable, whose value is shown. -/
def configHelp (env : Config.Environment) : String :=
  "Path to the YAML configuration file [env: " ++ configVariable ++ "=" ++
    (env configVariable).getD "" ++ "]"

def helpText (env : Config.Environment) : String :=
  let (columns, names) := helpWidth
  let indent := String.ofList (List.replicate names ' ')
  "Multi-provider LLM relay gateway\n\n" ++
  "Usage: " ++ programName ++ " [OPTIONS]\n\n" ++
  "Options:\n" ++
  "  -c, --config <CONFIG>  " ++
    ("\n" ++ indent).intercalate (wrap (columns - names) (configHelp env)) ++ "\n" ++
  "  -h, --help             Print help\n" ++
  "  -V, --version          Print version"

end CommandLine

end ModelRelay
