import Wordstack.Binary64.Read
import Wordstack.Config.Basic
import Wordstack.Config.Validate
import Wordstack.Text.Basic

/-!
# Arguments of the command

- **Help** (`Cli.usage`): what the command says about itself.
- **Arguments** (`Arguments`): what was asked for, and what is wrong with it.
- **Reading** (`Arguments.read`): flags with and without values; the first other argument is a file,
  unless it is `serve`.
- **Plans** (`Plan`, `Arguments.plan`): what to do, and the configuration layer that wins over all
  others.
-/

namespace Wordstack

/-! ## Help -/

namespace Cli

/-- The lines of the usage. -/
def usage : List String := [
  "forthic - Forthic interpreter and remote runtime server",
  "",
  "USAGE:",
  "  forthic [options]                   Start an interactive session",
  "  forthic [options] <file>            Run a Forthic file",
  "  forthic --eval <code>               Run Forthic code directly",
  "  forthic serve [options]             Serve this runtime's modules to other runtimes",
  "",
  "OPTIONS:",
  "  -h, --help                          Show this help message",
  "  -v, --version                       Show version information",
  "  -e, --eval <code>                   Run code, print the stack and exit",
  "  -c, --config <file>                 Configuration file (JSON or YAML)",
  "  --modules-config <file>             Modules file (JSON or YAML, \"modules:\" list)",
  "  --timezone <zone>                   IANA zone for zoneless datetime literals",
  "  --log-level <level>                 silent | error | warn | info | debug",
  "  --verbose                           Print stack traces on failure",
  "",
  "SERVE OPTIONS:",
  "  -p, --port <port>                   Port to listen on (default: 50051, 0 = any)",
  "  --host <host>                       Interface to bind (default: 0.0.0.0)",
  "",
  "ENVIRONMENT:",
  "  FORTHIC_PORT, FORTHIC_HOST, FORTHIC_REQUEST_TIMEOUT_MS, FORTHIC_CORS_ORIGIN,",
  "  FORTHIC_TIMEZONE, FORTHIC_MAX_ATTEMPTS, FORTHIC_LOG_LEVEL, FORTHIC_MODULES_CONFIG",
  "",
  "SESSION COMMANDS:",
  "  .stack                              Show the stack",
  "  .clear                              Clear the stack",
  "  .reset                              Reset the interpreter",
  "  .quit                               Exit",
  "",
  "EXAMPLES:",
  "  forthic --eval \"[1 2 3] DUP\"",
  "  forthic serve --port 50051 --modules-config modules.yaml"]

/-- The text about usage. -/
def helpText : String := Text.join "\n" usage

/-- The name and the version of the command. -/
def versionText : String := "forthic-runtime v0.1.0"

end Cli

/-! ## Arguments -/

/-- What the command does. -/
inductive CliMode where
  /-- An interactive session. -/
  | session
  /-- Running a file or a text once. -/
  | once
  /-- Serving the modules to other runtimes. -/
  | serve
deriving DecidableEq

/-- The arguments of the command. -/
structure Arguments where
  help : Bool := false
  version : Bool := false
  verbose : Bool := false
  code : Option String := none
  file : Option String := none
  mode : Option CliMode := none
  port : Option Binary64 := none
  host : Option String := none
  configFile : Option String := none
  modulesFile : Option String := none
  level : Option LogLevel := none
  zone : Option String := none
  /-- The arguments that cannot be used, each with the reason. -/
  errors : List String := []

namespace Arguments

/-- The flags that a value follows. -/
def valueFlags : List String :=
  ["--eval", "-e", "--port", "-p", "--host", "--config", "-c", "--modules-config", "--timezone",
    "--log-level"]

/-- Adds an error. -/
def refuse (a : Arguments) (error : String) : Arguments := { a with errors := a.errors ++ [error] }

/-- Takes a port. -/
def setPort (a : Arguments) (text : String) : Arguments :=
  let port := Binary64.ofText text
  if Config.isPort port then { a with port := some port } else a.refuse ("Invalid port: " ++ text)

/-- Takes a log level. -/
def setLevel (a : Arguments) (text : String) : Arguments :=
  match LogLevel.ofName? text with
  | some level => { a with level := some level }
  | none => a.refuse ("Invalid log level: " ++ text)

/-- Takes a flag with its value; without one it is an error, and what an earlier flag set is
dropped. -/
def setValue (a : Arguments) (flag : String) (value : Option String) : Arguments :=
  let a := if value.isNone then a.refuse (flag ++ " requires a value") else a
  match flag with
  | "--eval" | "-e" => { a with code := some (value.getD ""), mode := some .once }
  | "--port" | "-p" => (value.map a.setPort).getD a
  | "--host" => { a with host := value }
  | "--config" | "-c" => { a with configFile := value }
  | "--modules-config" => { a with modulesFile := value }
  | "--timezone" => { a with zone := value }
  | "--log-level" => (value.map a.setLevel).getD a
  | _ => a

/-- Whether a text is there and not empty. -/
def isGiven (s : Option String) : Bool := (s.map fun s => !s.isEmpty).getD false

/-- Takes an argument that no value follows. -/
def setPlain (a : Arguments) (arg : String) : Arguments :=
  if arg == "--help" || arg == "-h" then { a with help := true }
  else if arg == "--version" || arg == "-v" then { a with version := true }
  else if arg == "--verbose" then { a with verbose := true }
  else if arg == "serve" && a.mode.isNone && a.file.isNone then { a with mode := some .serve }
  else if Text.startsWith arg "-" then a.refuse ("Unknown option: " ++ arg)
  else if isGiven a.file then a
  else
    { a with
      file := some arg
      mode := if a.mode = some .serve then a.mode else some .once }

/-- Takes arguments in order. -/
def readFrom (a : Arguments) : List String → Arguments
  | [] => a
  | [arg] => if valueFlags.contains arg then a.setValue arg none else a.setPlain arg
  | arg :: next :: rest =>
    if valueFlags.contains arg then readFrom (a.setValue arg (some next)) rest
    else readFrom (a.setPlain arg) (next :: rest)

/-- The arguments in order; without any that says what to do it is a session. -/
def read (args : List String) : Arguments :=
  let a := readFrom {} args
  { a with mode := a.mode.or (some .session) }

end Arguments

/-- What the command is to do. -/
structure Plan where
  mode : CliMode
  verbose : Bool
  code : Option String
  file : Option String
  configFile : Option String
  /-- The configuration layer that wins over all others. -/
  overrides : ConfigLayer

namespace Arguments

/-- The configuration layer of the arguments. -/
def overrides (a : Arguments) : ConfigLayer where
  server := { host := a.host, port := a.port }
  interpreter := { zone := a.zone }
  level := a.level
  modulesFile := Config.nonempty a.modulesFile

/-- The plan of the arguments. -/
def plan (a : Arguments) : Plan where
  mode := a.mode.getD (if a.code.isSome || isGiven a.file then .once else .session)
  verbose := a.verbose
  code := a.code
  file := Config.nonempty a.file
  configFile := Config.nonempty a.configFile
  overrides := a.overrides

end Arguments

end Wordstack
