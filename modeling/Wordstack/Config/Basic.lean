import Wordstack.Binary64.Basic
import Wordstack.Machine.Console

/-!
# Configuration

- **Configurations** (`Config`): what a server and its interpreters run with, and the modules to
  load. `Config.standard` holds the defaults.
- **Layers** (`ConfigLayer`): the parts of a configuration that one source gives.
- **Merging** (`Config.merge`): later layers win; a list of modules replaces the one before.
-/

namespace Wordstack

/-- How a server listens and answers. -/
structure ServerConfig where
  host : String := "0.0.0.0"
  /-- Zero for any free port. -/
  port : Binary64 := 50051
  /-- The time a request may take in milliseconds. -/
  timeout : Binary64 := 30000
  /-- The origin whose pages may read responses. -/
  allowOrigin : String := "*"

/-- What interpreters are made with. -/
structure InterpConfig where
  zone : String := "UTC"
  maxAttempts : Binary64 := 3

/-- A module to load: its name, and the path under which the code that builds it is known. -/
structure ModuleEntry where
  name : String
  path : String
  /-- Whether loading goes on without it. -/
  optional : Bool := false
  description : String := ""
  /-- Replaces the module's own mark when given. -/
  runtimeSpecific : Option Bool := none
deriving DecidableEq

/-- A whole configuration. -/
structure Config where
  server : ServerConfig := {}
  interpreter : InterpConfig := {}
  level : LogLevel := .info
  modules : List ModuleEntry := []
  /-- The path of a file with more modules. -/
  modulesFile : Option String := none

/-- What a layer says about the server. -/
structure ServerLayer where
  host : Option String := none
  port : Option Binary64 := none
  timeout : Option Binary64 := none
  allowOrigin : Option String := none

/-- What a layer says about interpreters. -/
structure InterpLayer where
  zone : Option String := none
  maxAttempts : Option Binary64 := none

/-- The parts of a configuration that one source gives. -/
structure ConfigLayer where
  server : ServerLayer := {}
  interpreter : InterpLayer := {}
  level : Option LogLevel := none
  modules : Option (List ModuleEntry) := none
  modulesFile : Option String := none

namespace Config

/-- The configuration without any layer. -/
def standard : Config := {}

/-- The files that are looked for when none is named, in order. -/
def standardFiles : List String :=
  ["forthic.config.json", "forthic.config.yaml", "forthic.config.yml"]

/-- What a server layer sets, over a configuration. -/
def setServer (l : ServerLayer) (c : ServerConfig) : ServerConfig where
  host := l.host.getD c.host
  port := l.port.getD c.port
  timeout := l.timeout.getD c.timeout
  allowOrigin := l.allowOrigin.getD c.allowOrigin

/-- What an interpreter layer sets, over a configuration. -/
def setInterpreter (l : InterpLayer) (c : InterpConfig) : InterpConfig where
  zone := l.zone.getD c.zone
  maxAttempts := l.maxAttempts.getD c.maxAttempts

/-- A text, unless it is empty. -/
def nonempty (s : Option String) : Option String := s.filter fun s => !s.isEmpty

/-- What a layer sets, over a configuration. An empty path of a modules file sets nothing. -/
def set (c : Config) (l : ConfigLayer) : Config where
  server := setServer l.server c.server
  interpreter := setInterpreter l.interpreter c.interpreter
  level := l.level.getD c.level
  modules := l.modules.getD c.modules
  modulesFile := (nonempty l.modulesFile).or c.modulesFile

/-- The defaults with layers over them, later ones over earlier ones. -/
def merge (layers : List ConfigLayer) : Config := layers.foldl set standard

end Config

end Wordstack
