import Wordstack.Module.Define

/-!
# The core vocabulary

Words for the stack, variables, modules, options, profiling and recovery, each as native code.

- **Operands** (`Native.text`, `Native.items`): an operand of another kind is an error that names
  what it should have been. Null stands for the empty array.
- **Variables** (`Native.variableCell`): given by reference, or by a name that is created in the
  current module when it is used first. Names that begin with two underscores are reserved.
- **The module** (`coreModule`).
-/

namespace Wordstack

namespace Native

/-- The text of an operand. -/
def text (what : String) : Val → Native String
  | .str s => pure s
  | v => fail (.typeError (what ++ " must be a string (got " ++ v.kindName ++ ")"))

/-- The items of an array operand. -/
def items (what : String) : Val → Native (List Val)
  | .null => pure []
  | .array vs => pure vs
  | v => fail (.typeError (what ++ " must be an array (got " ++ v.kindName ++ ")"))

/-- Refuses the reserved names. -/
def checkVariableName (name : String) : Native Unit := do
  if Text.startsWith name "__" then
    fail (.invalidVariableName (← query .topInput) name (← query .callLocation))

/-- The cell of the variable that an operand stands for. -/
def variableCell : Val → Native Nat
  | .variableRef r => pure r.id
  | v => do
    let name ← text "Variable" v
    checkVariableName name
    return (← query (.variableNamed name)).id

/-- Creates the variables of the given names. -/
def createVariables : List Val → Native Unit
  | [] => pure ()
  | v :: vs => do
    let name ← text "Variable name" v
    checkVariableName name
    let _ ← query (.variableNamed name)
    createVariables vs

/-- The names and qualifiers of modules to import: names alone, or pairs of both. -/
def importList : List Val → Native (List (String × String))
  | [] => pure []
  | .str name :: vs => return (name, "") :: (← importList vs)
  | .array [name, qualifier] :: vs => do
    let i := (← text "Module name" name, ← text "Module prefix" qualifier)
    return i :: (← importList vs)
  | v :: _ =>
    fail (.typeError
      ("USE-MODULES expects names or [name prefix] pairs (got " ++ v.display ++ ")"))

/-- A computation without a result. -/
def only (x : Native Unit) : Native (Option Val) := do
  x
  return none

/-- Stops on purpose. -/
def stop (reason : String) : Native Unit := fail (.stopped reason)

end Native

/-- Null and the empty text count as missing. -/
def Val.isMissing : Val → Bool
  | .null => true
  | .str s => s.isEmpty
  | _ => false

/-- What a failure looks like to the program that caught it. -/
def Fault.toRecord (f : Fault) : Val :=
  .record [("message", .str f.message), ("error_type", .str f.errorType)]

namespace Core

open Native

/-- The words that take inputs. -/
def natives : List NativeSpec := [
  { name := "POP"
    effect := "( item:any -- )"
    description := "Removes the top item"
    code := fun _ _ => pure none },
  { name := "DUP"
    effect := "( a:any -- a:any a:any )"
    description := "Duplicates the top item"
    code := fun
      | [a], _ => do
        query (.push a)
        return some a
      | _, _ => pure none },
  { name := "SWAP"
    effect := "( a:any b:any -- b:any a:any )"
    description := "Swaps the top two items"
    code := fun
      | [a, b], _ => do
        query (.push b)
        return some a
      | _, _ => pure none },
  { name := "VARIABLES"
    effect := "( varnames:string[] -- )"
    description := "Creates variables in the current module"
    code := fun
      | [names], _ => only do createVariables (← items "Variable names" names)
      | _, _ => pure none },
  { name := "!"
    effect := "( value:any variable:any -- )"
    description := "Stores a value in a variable"
    code := fun
      | [value, target], _ => only do query (.store (← variableCell target) value)
      | _, _ => pure none },
  { name := "@"
    effect := "( variable:any -- value:any )"
    description := "Fetches a variable's value"
    code := fun
      | [target], _ => do return some (← query (.fetch (← variableCell target)))
      | _, _ => pure none },
  { name := "!@"
    effect := "( value:any variable:any -- value:any )"
    description := "Stores a value and pushes it back"
    code := fun
      | [value, target], _ => do
        query (.store (← variableCell target) value)
        return some value
      | _, _ => pure none },
  { name := "EXPORT"
    effect := "( names:string[] -- )"
    description := "Adds names to the current module's export list"
    code := fun
      | [names], _ => only do
        query (.requireScope "addExportable")
        query (.exportNames (← (← items "Export names" names).mapM (text "Export name")))
      | _, _ => pure none },
  { name := "USE-MODULES"
    effect := "( names:any[] -- )"
    description :=
      "Imports registered modules into the current module; [name prefix] imports with a prefix"
    waits := true
    code := fun
      | [names], _ => only do query (.useModules (← importList (← items "Module names" names)))
      | _, _ => pure none },
  { name := "IDENTITY"
    effect := "( -- )"
    description := "Does nothing"
    code := fun _ _ => pure none },
  { name := "NOP"
    effect := "( -- )"
    description := "Does nothing"
    code := fun _ _ => pure none },
  { name := "NULL"
    effect := "( -- null:null )"
    description := "Pushes null"
    code := fun _ _ => pure (some .null) },
  { name := "ARRAY?"
    effect := "( value:any -- is_array:boolean )"
    description := "TRUE if the value is an array"
    code := fun
      | [.array _], _ => pure (some (.bool true))
      | _, _ => pure (some (.bool false)) },
  { name := "DEFAULT"
    effect := "( value:any default_value:any -- result:any )"
    description := "Replaces null or empty string with a default"
    code := fun
      | [value, fallback], _ => pure (some (if value.isMissing then fallback else value))
      | _, _ => pure none },
  { name := "*DEFAULT"
    effect := "( value:any default_forthic:string -- result:any )"
    description := "Replaces null or empty string with the result of running Forthic"
    waits := true
    code := fun
      | [value, source], _ => do
        if !value.isMissing then return some value
        query (.run (← text "Default Forthic" source))
        return some (← query .pop)
      | _, _ => pure none },
  { name := "~>"
    effect := "( items:any[] -- options:WordOptions )"
    description := "Builds options from a flat [.key value ...] array"
    code := fun
      | [list], _ => do
        let options ← lift (Options.ofFlat (← items "Options" list))
        return some (.options (← query .fresh) options.entries)
      | _, _ => pure none },
  { name := "PROFILE-START"
    effect := "( -- )"
    description := "Clears profiling data and starts counting word dispatches"
    code := fun _ _ => only (query .startProfile) },
  { name := "PROFILE-END"
    effect := "( -- )"
    description := "Stops counting word dispatches"
    code := fun _ _ => only (query .stopProfile) },
  { name := "PROFILE-TIMESTAMP"
    effect := "( label:string -- )"
    description := "Records a labelled timestamp"
    code := fun
      | [label], _ => only do query (.stamp (← text "Timestamp label" label))
      | _, _ => pure none },
  { name := "PROFILE-DATA"
    effect := "( -- data:record )"
    description := "Pushes \x7bword_counts, timestamps\x7d"
    code := fun _ _ => do return some (← query .profile) }]

/-- Runs source text; on a fault that is no stop on purpose the stack is as before, with a record
of the fault on top. -/
def tryRun (source : String) : Native Unit := do
  let saved ← query .stack
  match ← query (.attempt source) with
  | none => query (.push .null)
  | some f =>
    if f.isStop then fail f
    query (.setStack saved)
    query (.push f.toRecord)

/-- What is printed for values: one on a line, or a note that there is none. -/
def listing (vs : List Val) : String :=
  if vs.isEmpty then "<STACK EMPTY>" else Text.join "\n" (vs.map Val.display)

/-- The words that work on the stack themselves. -/
def directs : List DirectSpec := [
  { name := "INTERPRET"
    effect := "( forthic:string -- )"
    description := "Runs a string of Forthic in the current scope"
    waits := true
    code := do
      match ← query .pop with
      | .null => return
      | v => query (.run (← text "INTERPRET source" v)) },
  { name := "TRY"
    effect := "( forthic:string -- error:record|null )"
    description := "Runs Forthic; on failure restores the stack and pushes " ++
      "\x7bmessage, error_type\x7d"
    waits := true
    code := do tryRun (← text "TRY source" (← query .pop)) },
  { name := "PEEK!"
    effect := "( -- )"
    description := "Prints the top of the stack and stops"
    code := do
      query (.print (listing (← query .top).toList))
      stop "PEEK!" },
  { name := "STACK!"
    effect := "( -- )"
    description := "Prints the whole stack, top first, and stops"
    code := do
      query (.print (listing (← query .stack).reverse))
      stop "STACK!" }]

end Core

/-- The name of the core vocabulary. -/
def coreName : String := "core"

/-- The core vocabulary. -/
def coreModule : ModuleSpec where
  name := coreName
  description := "Stack, variable, module, options, profiling and recovery words"
  natives := Core.natives
  directs := Core.directs
  runtimeSpecific := false

end Wordstack
