import Wordstack.Vocabulary.Core

/-!
# The vocabulary of connections

Words that connect to other runtimes under a name and import their modules. Their connections live
in one pool, or in the pool of the interpreter that runs the word.
-/

namespace Wordstack

namespace Connections

open Native

/-- The names in an operand: one text, or an array of them. -/
def moduleNames : Val → Native (List String)
  | .str s => pure [s]
  | .array vs => vs.mapM (text "Module name")
  | v => fail (.typeError ("Module names must be an array (got " ++ v.kindName ++ ")"))

/-- The words, for a pool of connections. -/
def natives (pool : Pool) : List NativeSpec := [
  { name := "CONNECT-RUNTIME"
    effect := "( name:string address:string -- )"
    description := "Connects to a remote runtime under a name"
    code := fun
      | [name, address], _ => only do
        query (.connect pool (← text "Runtime name" name) (← text "Runtime address" address))
      | _, _ => pure none },
  { name := "DISCONNECT-RUNTIME"
    effect := "( name:string -- )"
    description := "Closes a named runtime connection"
    code := fun
      | [name], _ => only do query (.disconnect pool (← text "Runtime name" name))
      | _, _ => pure none },
  { name := "LIST-RUNTIMES"
    effect := "( -- runtimes:string[] )"
    description := "Names of the connected runtimes"
    code := fun _ _ => do return some (.array ((← query (.connections pool)).map .str)) },
  { name := "USE-REMOTE-MODULES"
    effect := "( modules:string[] runtime:string -- )"
    description := "Imports modules from a connected runtime"
    waits := true
    code := fun
      | [modules, runtime], _ => only do
        let names ← moduleNames modules
        query (.useRemote pool (← text "Runtime name" runtime) "" names)
      | _, _ => pure none },
  { name := "USE-REMOTE-MODULES-AS"
    effect := "( modules:string[] runtime:string prefix:string -- )"
    description := "Imports modules from a connected runtime under prefix.WORD names"
    waits := true
    code := fun
      | [modules, runtime, qualifier], _ => only do
        let names ← moduleNames modules
        let runtime ← text "Runtime name" runtime
        query (.useRemote pool runtime (← text "Prefix" qualifier) names)
      | _, _ => pure none }]

end Connections

/-- The vocabulary of connections, for a pool. -/
def connectionModule (pool : Pool) : ModuleSpec where
  name := "remote_runtime"
  description := "Connect to remote Forthic runtimes and import their modules"
  natives := Connections.natives pool

end Wordstack
