import Wordstack.Cli.Arguments
import Wordstack.Config.Data
import Wordstack.Inspect.Value

/-!
# The command line for inspection

- **Arguments** (`Inspect.arguments`): what was asked for; flags that are not set are left out.
- **Plans** (`Inspect.plan`): what the command is to do.
-/

namespace Wordstack.Inspect

/-- A configuration. -/
def config (c : Config) : Json := data c.toJson

/-- A configuration layer without the parts that say nothing. -/
def overrides (l : ConfigLayer) : Json := data l.toSparseJson

/-- The names of the modes. -/
def modes : List (CliMode × String) := [(.session, "repl"), (.once, "exec"), (.serve, "serve")]

/-- The mode with a name. -/
def modeOf? (name : String) : Option CliMode := (modes.find? fun m => m.2 == name).map (·.1)

/-- A mode. -/
def mode (m : CliMode) : Json := text? (modes.lookup m)

/-- A flag that is set. -/
def flag? (b : Bool) : Option Json := if b then some (.bool true) else none

/-- Arguments. -/
def arguments (a : Arguments) : Json :=
  Json.ofFields [("help", flag? a.help), ("version", flag? a.version), ("eval", a.code.map .str),
    ("file", a.file.map .str), ("verbose", flag? a.verbose), ("mode", a.mode.map mode),
    ("port", a.port.map number), ("host", a.host.map .str), ("config", a.configFile.map .str),
    ("modulesConfig", a.modulesFile.map .str), ("logLevel", a.level.map fun l => .str l.name),
    ("timezone", a.zone.map .str), ("errors", some (Json.strs a.errors))]

/-- A plan. -/
def plan (p : Plan) : Json :=
  Json.ofFields [("mode", some (mode p.mode)), ("verbose", some (.bool p.verbose)),
    ("code", p.code.map .str), ("file", p.file.map .str), ("configFile", p.configFile.map .str),
    ("overrides", some (overrides p.overrides))]

end Wordstack.Inspect
