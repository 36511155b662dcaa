import Wordstack.Machine.Standard

/-!
# The service of a runtime

A runtime serves the modules of a frozen registry. Each request gets an interpreter of its own with
all of them imported, so requests share nothing but what the modules themselves hold.

- **Starting** (`Runtime.start`): registers the modules, runs their sources once and freezes the
  registry.
- **Execution** (`Runtime.executeWord`, `Runtime.executeSequence`): a fault becomes a report in the
  response, and there is no stack then. The first failing word ends a sequence.
- **Listings** (`Runtime.listModules`, `Runtime.moduleInfo`).
-/

namespace Wordstack

namespace Runtime

/-- Where log lines of a runtime say they come from. -/
def logScope : String := "runtime"

/-! ## Starting -/

/-- Registers modules in order. -/
def registerAll (s : Store) (r : Registry) : List Nat → Except Fault Registry
  | [] => .ok r
  | m :: rest => do registerAll s (← r.register (s.module m).name m) rest

/-- A registry of the core vocabulary, unless the modules bring their own, and the modules. -/
def assemble (s : Store) (modules : List Nat) : Except Fault (Registry × Store) := do
  if modules.any fun m => (s.module m).name == coreName then
    return (← registerAll s {} modules, s)
  else
    let (core, s) ← s.define coreModule
    return (← registerAll s {} (core :: modules), s)

/-- Runs the sources of modules in order. -/
def initializeAll (e : Nested) : List Nat → Task Unit
  | [] => pure ()
  | m :: rest => do
    initializeModule e m
    initializeAll e rest

/-- Writes a warning for each text. -/
def warnAll : List String → Task Unit
  | [] => pure ()
  | problem :: rest => do
    Task.log .warn logScope problem
    warnAll rest

/-- A runtime over modules, whose interpreters have the given zone and limit of attempts. -/
def start (e : Nested) (modules : List Nat) (zone : Option String)
    (maxAttempts : Option Binary64) : Task Runtime := do
  let registry ← Task.ofStore? fun s => assemble s modules
  let loader ← Task.ofStore? fun s => Interp.standard s { registry, zone } []
  let _ ← Task.onOther loader (initializeAll e registry.modules)
  warnAll (← Task.view fun _ s => registry.problems s.modules)
  Task.log .info logScope
    ("Runtime ready with " ++ toString registry.names.length ++ " module(s): " ++
      Text.join ", " registry.names)
  return { registry := registry.freeze, zone, maxAttempts }

/-! ## Execution -/

/-- A new interpreter for one request. -/
def interpreter (r : Runtime) (s : Store) : Except Fault (Interp × Store) :=
  Interp.standard s { registry := r.registry, zone := r.zone, maxAttempts := r.maxAttempts }
    (r.registry.entries.filterMap fun e => if e.1 = coreName then none else some e.2)

/-- An interpreter with the stack of a request on it. -/
def seeded (r : Runtime) (stack : List Json) : Task Interp := do
  let i ← Task.ofStore? r.interpreter
  let vs ← Task.lift (Wire.decodeStack "stack" (some (.arr stack)))
  return { i with stack := .ofList vs }

/-- The response of a failed request. -/
def failed (f : Fault) (context : List (String × String)) : StackResponse :=
  ⟨[], some (f.report context)⟩

/-- Runs one word on the stack of a request. -/
def executeWord (e : Nested) (r : Runtime) (request : WordRequest) : Task StackResponse := do
  Task.log .debug logScope
    ("ExecuteWord " ++ request.word ++ " (stack depth " ++ toString request.stack.length ++ ")")
  let outcome ← Task.attempt do
    let i ← r.seeded request.stack
    let (_, i) ← Task.onOther i (Task.call (Wordstack.executeWord e request.word))
    Task.lift (Wire.encodeStack i.stack.toList)
  match outcome with
  | .ok stack => return ⟨stack, none⟩
  | .error f =>
    Task.log .debug logScope ("ExecuteWord " ++ request.word ++ " failed: " ++ f.errorType)
    return failed f [("word_name", request.word)]

/-- A word of a sequence that failed, and its place. -/
structure FailedWord where
  fault : Fault
  word : String
  index : Nat

/-- Runs words in order up to the first that fails; `n` is the place of the first one. -/
def runWords (e : Nested) (n : Nat) : List String → Task (Option FailedWord)
  | [] => return none
  | word :: rest => do
    match ← Task.attempt (Task.call (Wordstack.executeWord e word)) with
    | .ok _ => runWords e (n + 1) rest
    | .error f => return some ⟨f, word, n⟩

/-- Runs words in order on the stack of a request. -/
def executeSequence (e : Nested) (r : Runtime) (request : SequenceRequest) :
    Task StackResponse := do
  let words := Text.join " " request.words
  Task.log .debug logScope ("ExecuteSequence [" ++ words ++ "]")
  let context := [("word_sequence", words)]
  match ← Task.attempt (r.seeded request.stack) with
  | .error f => return failed f context
  | .ok i =>
    let (failure, i) ← Task.onOther i (runWords e 0 request.words)
    match failure with
    | some w =>
      return failed w.fault
        (context ++ [("failed_word", w.word), ("failed_index", toString w.index)])
    | none =>
      match Wire.encodeStack i.stack.toList with
      | .ok stack => return ⟨stack, none⟩
      | .error f => return failed f context

/-! ## Listings -/

/-- All modules, each in one line. -/
def listModules (r : Runtime) (s : Store) : List ModuleSummary :=
  r.registry.modules.map (summaryOf s.modules)

/-- The module of a name with its words. -/
def moduleInfo (r : Runtime) (s : Store) (name : String) : Except Fault ModuleDoc :=
  match r.registry.get? name with
  | some m => .ok (describeModule s.modules m)
  | none => .error (.unknownModule "" name none)

end Runtime

namespace Wire

/-- The wire form of a line of a listing. -/
def writeSummary (m : ModuleSummary) : Json :=
  .obj [("name", .str m.name), ("description", .str m.description),
    ("word_count", Json.int m.wordCount), ("runtime_specific", .bool m.runtimeSpecific)]

/-- The wire form of a listing. -/
def writeListing (ms : List ModuleSummary) : Json := .obj [("modules", .arr (ms.map writeSummary))]

/-- The wire form of the documentation of a word. -/
def writeWordDoc (w : WordDoc) : Json :=
  .obj [("name", .str w.name), ("stack_effect", .str w.effect), ("description", .str w.description)]

/-- The wire form of the documentation of a module. -/
def writeModuleDoc (m : ModuleDoc) : Json :=
  .obj [("name", .str m.name), ("description", .str m.description),
    ("words", .arr (m.words.map writeWordDoc))]

end Wire

end Wordstack
