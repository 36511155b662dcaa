import Wordstack.Config.Basic
import Wordstack.Calendar.Zone
import Wordstack.Binary64.Show

/-!
# Valid configurations

`Config.problems` lists what keeps a configuration from being used, and `Config.warnings` what is
only unwise.
-/

namespace Wordstack

namespace Config

/-- Whether a number is a port. -/
def isPort (x : Binary64) : Bool :=
  match x.toInt? with
  | some n => 0 ≤ n && n ≤ 65535
  | none => false

/-- What is wrong with entries; `i` is the place of the first one and `seen` the names before. -/
def entryProblems (i : Nat) (seen : List String) : List ModuleEntry → List String
  | [] => []
  | e :: rest =>
    let place := "modules[" ++ toString i ++ "]: "
    (if e.name.isEmpty then [place ++ "missing name"] else []) ++
      (if e.path.isEmpty then [place ++ "missing import_path"] else []) ++
      (if !e.name.isEmpty && seen.contains e.name then
        [place ++ "duplicate module " ++ e.name] else []) ++
      entryProblems (i + 1) (e.name :: seen) rest

/-- Why a configuration cannot be used. -/
def problems (c : Config) : List String :=
  (if isPort c.server.port then [] else
    ["port must be an integer between 0 and 65535 (got " ++ c.server.port.toText ++ ")"]) ++
    (if c.server.timeout.le 0 then ["requestTimeoutMs must be positive"] else []) ++
    (if Calendar.isZone c.interpreter.zone then [] else
      ["Unknown timezone: " ++ c.interpreter.zone]) ++
    (if c.interpreter.maxAttempts.lt 1 then ["maxAttempts must be at least 1"] else []) ++
    entryProblems 0 [] c.modules

/-- What is unwise about a configuration. -/
def warnings (c : Config) : List String :=
  if (0 : Binary64).lt c.server.timeout && c.server.timeout.lt 100 then
    ["requestTimeoutMs is very low, requests may time out before they run"]
  else []

end Config

end Wordstack
