import Std.Time.DateTime.Timestamp
import Wordstack.Cli.Session

/-!
# The command line

Reads files, the environment and standard input, and writes what the command says.
-/

namespace Wordstack

namespace Cli

/-- The number of a system's error, which may come with either sign. -/
def errorNumber (code : UInt32) : UInt32 := min code (0 - code)

/-- What is at a path. -/
def stateAt (path : String) : IO FileState := do
  try return .text (← IO.FS.readFile path)
  catch
    | .inappropriateType _ code _ =>
      return if errorNumber code = 20 then .blocked else .directory
    | .illegalOperation .. => return .directory
    | .invalidArgument _ code _ =>
      return if errorNumber code = 36 then .tooLong else .absent
    | _ => return .absent

/-- Runs a computation on the files there are. -/
def readWith {α : Type} : Reading α → IO (Except Fault α)
  | .done a => return .ok a
  | .fail f => return .error f
  | .look path next => do readWith (next (← stateAt path))

/-- The variables that the command looks at. -/
def environment : IO Environment := do
  let names := ConfigLayer.variableNames.map fun n => Config.variablePrefix ++ "_" ++ n
  let values ← names.mapM fun name => do return (name, ← IO.getEnv name)
  return values.filterMap fun e => e.2.map fun v => (e.1, v)

/-- Writes outputs in order. -/
def write (outputs : List Output) : IO Unit := do
  for o in outputs do
    if o.toError then (← IO.getStderr).putStr o.text else (← IO.getStdout).putStr o.text
  (← IO.getStdout).flush

/-- Answers lines until the session or the input ends. -/
partial def talk (s : Session) : IO UInt32 := do
  let line ← (← IO.getStdin).getLine
  if line.isEmpty then return 0
  let (outputs, progress) := s.converse (inputLines line)
  write outputs
  match progress with
  | .goOn s => talk s
  | .ended code => return code.toUInt32

end Cli

end Wordstack

open Wordstack in
/-- Runs the command with its arguments. -/
def main (args : List String) : IO UInt32 := do
  let time ← Std.Time.Timestamp.now
  let now := time.toMillisecondsSinceUnixEpoch.toInt
  let store : Store := { now, clock := fun _ => Binary64.ofInt now }
  match ← Cli.readWith (Cli.start args (← Cli.environment) store) with
  | .error f =>
    Cli.write [.fatal f]
    return 1
  | .ok (outputs, progress) =>
    Cli.write outputs
    match progress with
    | .goOn s => Cli.talk s
    | .ended code => return code.toUInt32
