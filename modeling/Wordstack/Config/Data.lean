import Wordstack.Binary64.Read
import Wordstack.Config.Basic
import Wordstack.Json.Basic
import Wordstack.Text.Lower

/-!
# Layers from data and as data

A layer as an object of JSON. Keys may be spelled in camel case or with underscores; what has
another shape than it should counts as missing.

- **Objects** (`Entries.ofJson?`): an object's own entries, and behind them those of the object
  under its key `__proto__`.
- **Entries** (`Entries.text?`, `Entries.number?`, `Entries.flag?`): numbers and truth values may
  be written as texts.
- **Layers** (`ConfigLayer.ofJson`).
- **Writing** (`ModuleEntry.toJson`, `ConfigLayer.toJson`, `Config.toJson`): the form in which a
  configuration file holds the same, for a layer only what it says; `ConfigLayer.toSparseJson` also
  leaves out the parts in which it says nothing.
-/

namespace Wordstack

/-! ## Reading -/

/-- The entries of an object, and those to fall back on. -/
structure Entries where
  own : List (String × Json)
  behind : List (String × Json) := []

namespace Entries

/-- The entries of a value, if it is an object. -/
def ofJson? : Json → Option Entries
  | .obj fields =>
    some ⟨fields.filter fun e => e.1 != "__proto__",
      match fields.lookup "__proto__" with
      | some (.obj behind) => behind
      | _ => []⟩
  | _ => none

/-- The value under the first of the keys that is there. -/
def find? (d : Entries) (keys : List String) : Option Json :=
  keys.findSome? fun key => (d.own.lookup key).or (d.behind.lookup key)

/-- A text. -/
def text? (d : Entries) (keys : List String) : Option String := (d.find? keys).bind Json.str?

/-- A number that is finite, or a text of one. -/
def number? (d : Entries) (keys : List String) : Option Binary64 :=
  match d.find? keys with
  | some (.num x) => if x.isFinite then some x else none
  | some (.str s) =>
    let x := Binary64.ofText s
    if !(Text.trim s).isEmpty && x.isFinite then some x else none
  | _ => none

/-- A truth value, or a text of one. -/
def flag? (d : Entries) (keys : List String) : Option Bool :=
  match d.find? keys with
  | some (.bool b) => some b
  | some (.str "true") => some true
  | some (.str "false") => some false
  | _ => none

/-- The entries of the object under a key, none if there is no object. -/
def sub (d : Entries) (key : String) : Entries := ((d.find? [key]).bind ofJson?).getD ⟨[], []⟩

end Entries

/-- The level of a name in any case. -/
def LogLevel.ofAnyCase? (name : String) : Option LogLevel := ofName? (Text.lower name)

/-- An entry of a list of modules. -/
def ModuleEntry.ofJson (x : Json) : ModuleEntry :=
  let d := (Entries.ofJson? x).getD ⟨[], []⟩
  { name := (d.text? ["name"]).getD ""
    path := (d.text? ["importPath", "import_path"]).getD ""
    optional := (d.flag? ["optional"]).getD false
    description := (d.text? ["description"]).getD ""
    runtimeSpecific := d.flag? ["runtimeSpecific", "runtime_specific"] }

namespace ConfigLayer

/-- The layer that entries hold. -/
def ofEntries (d : Entries) : ConfigLayer where
  server :=
    let d := d.sub "server"
    { host := d.text? ["host"]
      port := d.number? ["port"]
      timeout := d.number? ["requestTimeoutMs", "request_timeout_ms"]
      allowOrigin := d.text? ["corsOrigin", "cors_origin"] }
  interpreter :=
    let d := d.sub "interpreter"
    { zone := d.text? ["timezone"]
      maxAttempts := d.number? ["maxAttempts", "max_attempts"] }
  level := (d.text? ["logLevel", "log_level"]).bind LogLevel.ofAnyCase?
  modules := ((d.find? ["modules"]).bind Json.arr?).map fun items => items.map ModuleEntry.ofJson
  modulesFile := d.text? ["modulesConfig", "modules_config"]

end ConfigLayer

/-! ## Writing -/

/-- A module to load. -/
def ModuleEntry.toJson (e : ModuleEntry) : Json :=
  Json.ofFields [("name", some (.str e.name)), ("importPath", some (.str e.path)),
    ("optional", some (.bool e.optional)), ("description", some (.str e.description)),
    ("runtimeSpecific", e.runtimeSpecific.map .bool)]

/-- Modules to load. -/
def ModuleEntry.listJson (es : List ModuleEntry) : Json := .arr (es.map toJson)

/-- What a layer says about the server. -/
def ServerLayer.toJson (l : ServerLayer) : Json :=
  Json.ofFields [("host", l.host.map .str), ("port", l.port.map .num),
    ("requestTimeoutMs", l.timeout.map .num), ("corsOrigin", l.allowOrigin.map .str)]

/-- What a layer says about interpreters. -/
def InterpLayer.toJson (l : InterpLayer) : Json :=
  Json.ofFields [("timezone", l.zone.map .str), ("maxAttempts", l.maxAttempts.map .num)]

namespace ConfigLayer

/-- A layer with its parts as `part` shows them. -/
def writeWith (part : Json → Option Json) (l : ConfigLayer) : Json :=
  Json.ofFields [("server", part l.server.toJson), ("interpreter", part l.interpreter.toJson),
    ("logLevel", l.level.map fun x => .str x.name), ("modules", l.modules.map ModuleEntry.listJson),
    ("modulesConfig", l.modulesFile.map .str)]

/-- A layer with both its parts. -/
def toJson (l : ConfigLayer) : Json := l.writeWith some

/-- A layer without the parts that say nothing. -/
def toSparseJson (l : ConfigLayer) : Json :=
  l.writeWith fun x => if (x.obj?.getD []).isEmpty then none else some x

end ConfigLayer

/-- A whole configuration: a layer that says everything. -/
def Config.toJson (c : Config) : Json :=
  ConfigLayer.toJson {
    server := { host := some c.server.host, port := some c.server.port,
                timeout := some c.server.timeout, allowOrigin := some c.server.allowOrigin }
    interpreter := { zone := some c.interpreter.zone,
                     maxAttempts := some c.interpreter.maxAttempts }
    level := some c.level
    modules := some c.modules
    modulesFile := c.modulesFile }

end Wordstack
