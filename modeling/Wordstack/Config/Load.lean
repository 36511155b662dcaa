import Wordstack.Config.Data
import Wordstack.Config.Yaml
import Wordstack.Files.Tree
import Wordstack.Json.Read
import Wordstack.Text.Path

/-!
# Loading a configuration

- **Environment** (`ConfigLayer.ofEnvironment`): variables with a common prefix.
- **Files** (`ConfigLayer.ofFile`): JSON or YAML by the ending of the name. A relative path of a
  modules file is taken from the directory of the file that names it.
- **Everything** (`Config.load`): overrides win over the file, the file over the environment, and
  the environment over the defaults. The modules of a modules file come after the others.
-/

namespace Wordstack

/-- The variables of an environment. -/
abbrev Environment := List (String × String)

namespace ConfigLayer

/-- The integer that a variable starts with. -/
def leadingNumber (value : Option String) : Option Binary64 := value.bind Binary64.leadingInt

/-- The layer that the variables with a prefix hold. -/
def ofEnvironment (start : String) (env : Environment) : ConfigLayer :=
  let var := fun name => env.lookup (start ++ "_" ++ name)
  { server :=
      { host := Config.nonempty (var "HOST")
        port := leadingNumber (var "PORT")
        timeout := leadingNumber (var "REQUEST_TIMEOUT_MS")
        allowOrigin := Config.nonempty (var "CORS_ORIGIN") }
    interpreter :=
      { zone := Config.nonempty (var "TIMEZONE")
        maxAttempts := leadingNumber (var "MAX_ATTEMPTS") }
    level := (var "LOG_LEVEL").bind LogLevel.ofAnyCase?
    modulesFile := Config.nonempty (var "MODULES_CONFIG") }

/-- The names of the variables that are looked at, after the prefix. -/
def variableNames : List String :=
  ["HOST", "PORT", "REQUEST_TIMEOUT_MS", "CORS_ORIGIN", "TIMEZONE", "MAX_ATTEMPTS", "LOG_LEVEL",
    "MODULES_CONFIG"]

/-- The data in the text of a file, by the ending of its name. -/
def dataOf (ending text : String) : Except Fault Json :=
  if ending == ".json" then
    match Json.ofText? text with
    | some x => .ok x
    | none => .error (.host "SyntaxError" "malformed JSON")
  else if ending == ".yaml" || ending == ".yml" then .ok (readYaml text)
  else .error (.error ("Unsupported config file format: " ++ ending))

/-- The path of a modules file as seen from where the configuration file is seen. -/
def besideFile (file modulesFile : String) : String :=
  if modulesFile.isEmpty || Path.isAbsolute modulesFile then modulesFile
  else Path.join (Path.directory file) modulesFile

/-- The layer in the text of a file. -/
def ofText (file text : String) : Except Fault ConfigLayer := do
  let x ← dataOf (Text.lower (Path.ending file)) text
  match Entries.ofJson? x with
  | none => .error (.error ("Config file must contain an object: " ++ file))
  | some d =>
    let layer := ofEntries d
    return { layer with modulesFile := layer.modulesFile.map (besideFile file) }

/-- The layer in a file; `kind` is what the message about a missing file calls it. -/
def ofFile (kind file : String) : Reading ConfigLayer := do
  match ← Reading.state file with
  | .absent | .blocked | .tooLong => Reading.fail (.error (kind ++ " not found: " ++ file))
  | _ => Reading.lift (ofText file (← Reading.text file))

end ConfigLayer

namespace Config

/-- The prefix of the variables. -/
def variablePrefix : String := "FORTHIC"

/-- What a configuration file is called in messages. -/
def fileKind : String := "Config file"

/-- The entries in a modules file. -/
def modulesOfFile (file : String) : Reading (List ModuleEntry) := do
  return (← ConfigLayer.ofFile "Module config file" file).modules.getD []

/-- The first of the files that exists. -/
def firstFile? : List String → Reading (Option String)
  | [] => return none
  | file :: rest => do
    if (← Reading.state file).exists? then return some file else firstFile? rest

/-- The layer of the file that is used: the named one, or the first standard one there is. -/
def fileLayers (file : Option String) : Reading (List ConfigLayer) := do
  let file ← match nonempty file with
    | some file => pure (some file)
    | none => firstFile? standardFiles
  match file with
  | some file => return [← ConfigLayer.ofFile fileKind file]
  | none => return []

/-- The configuration from all sources. -/
def load (env : Environment) (file : Option String) (overrides : Option ConfigLayer) :
    Reading Config := do
  let layers ← fileLayers file
  let config := merge (ConfigLayer.ofEnvironment variablePrefix env :: layers ++ overrides.toList)
  match config.modulesFile with
  | none => return config
  | some file => return { config with modules := config.modules ++ (← modulesOfFile file) }

end Config

end Wordstack
