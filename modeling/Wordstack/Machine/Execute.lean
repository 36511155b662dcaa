import Wordstack.Machine.Task

/-!
# Executing words

- **Nested work** (`Nested`): how source texts inside words are run, and how requests reach other
  runtimes. Everything here is relative to it.
- **Native code** (`perform`): answers the queries of native code, `answer` one of them.
- **Modules** (`initializeModule`, `useModules`): the source of a module is run in its own scope
  before the module is imported.
- **Words** (`dispatch`, `execute`): one execution of a word, counted and with its location noted.
- **Failures** (`recover`): handlers of a word are tried in order; a stop on purpose passes them by,
  and an error that is not one of the engine is wrapped.
-/

namespace Wordstack

/-- Work that words leave to a deeper level. -/
structure Nested where
  /-- Runs source text; the location says where its first character stands. -/
  run : String → Location → Task Unit
  /-- Sends a request to the runtime under a URL. -/
  send : String → Method → Json → Task Delivery

namespace Task

/-- The interpreter. -/
def interp : Task Interp := view fun i _ => i

/-- Puts a value on the stack. -/
def push (v : Val) : Task Unit := update fun i => { i with stack := i.stack.push v }

/-- Takes the top value. -/
def pop : Task Val := fun i s =>
  match i.stack.pop? with
  | some (v, stack) => .done (.ok v) { i with stack } s
  | none => .done (.fault i.underflow) i s

/-- Takes `n` values, deepest first. -/
def popN (n : Nat) : Task (List Val) := fun i s =>
  match i.stack.popN? n with
  | some (vs, stack) => .done (.ok vs) { i with stack } s
  | none => .done (.fault i.underflow) i s

/-- All values, deepest first. -/
def stack : Task (List Val) := view fun i _ => i.stack.toList

/-- Replaces all values. -/
def setStack (vs : List Val) : Task Unit := update fun i => { i with stack := .ofList vs }

/-- The current module, for an operation that needs one. -/
def current (operation : String) : Task Nat := fun i s =>
  match i.current? with
  | some m => .done (.ok m) i s
  | none =>
    .done (.fault (.typeError
      ("Cannot read properties of undefined (reading '" ++ operation ++ "')"))) i s

/-- Registers a module with the interpreter. -/
def register (m : Nat) : Task Unit := fun i s => .done (.ok ()) (i.register s m) s

/-- Changes the current module, for an operation that needs one. -/
def updateCurrent (operation : String) (f : Module → Module) : Task Unit := do
  let m ← current operation
  updateStore fun s => s.updateModule m f

end Task

/-! ## Modules -/

/-- Runs the source of a module in the module's own scope, unless that is done or going on. The
module is ready once its source has run to the end. -/
def initializeModule (e : Nested) (m : Nat) : Task Unit := do
  let skip ← Task.view fun i s => (s.module m).isReady || i.initializing.contains m
  if skip then return
  let module ← Task.view fun _ s => s.module m
  Task.update fun i =>
    { i with initializing := m :: i.initializing, scope := m :: i.scope }
  let outcome ← Task.attempt
    (Task.call (e.run module.source { Location.origin with source := module.name }))
  match outcome with
  | .ok _ =>
    Task.updateStore fun s => s.updateModule m fun module => { module with isReady := true }
  | .error _ => pure ()
  Task.update fun i =>
    { i with initializing := i.initializing.filter (· != m), scope := i.scope.tail }
  match outcome with
  | .ok _ => return
  | .error f => Task.throw (.moduleFailed module.name (some f))

/-- Imports modules into the current one, each under its qualifier. -/
def useModules (e : Nested) : List (String × String) → Task Unit
  | [] => pure ()
  | (name, qualifier) :: rest => do
    let m ← Task.lift ((← Task.interp).findModule name)
    Task.call (initializeModule e m)
    Task.updateCurrent "importModule" fun current => current.addImport ⟨m, qualifier⟩
    useModules e rest

/-- Registers a module with the interpreter and imports it. -/
def importModule (e : Nested) (m : Nat) (qualifier : String) : Task Unit := do
  Task.register m
  let name ← Task.view fun _ s => (s.module m).name
  Task.call (useModules e [(name, qualifier)])

/-! ## Calls to other runtimes -/

/-- Calls a method through a client. -/
def callRemote (e : Nested) (client : Nat) (method : Method) (request : Json) :
    Task (List (String × Json)) := do
  let c ← Task.view fun _ s => s.clients[client]?.getD { address := "", timeout := 0 }
  if c.closed then Task.throw c.closedFault
  else Task.lift (c.settle method (← e.send c.baseUrl method request))

/-- The stack in a reply to a client. -/
def remoteStack (client : Nat) (reply : List (String × Json)) : Task (List Val) := do
  let c ← Task.view fun _ s => s.clients[client]?.getD { address := "", timeout := 0 }
  Task.lift (c.resultStack reply)

/-- The stack after a word was run in another runtime on a stack. -/
def executeRemote (e : Nested) (client : Nat) (word : String) (vs : List Val) :
    Task (List Val) := do
  let xs ← Task.lift (Wire.encodeStack vs)
  remoteStack client (← callRemote e client .executeWord (Wire.writeWordRequest word xs))

/-- The stack after words were run in order in another runtime on a stack. -/
def executeRemoteSequence (e : Nested) (client : Nat) (words : List String) (vs : List Val) :
    Task (List Val) := do
  let xs ← Task.lift (Wire.encodeStack vs)
  remoteStack client (← callRemote e client .executeSequence (Wire.writeSequenceRequest words xs))

/-- The modules of another runtime. -/
def listRemote (e : Nested) (client : Nat) : Task (List Client.RemoteSummary) := do
  return Client.moduleList (← callRemote e client .listModules (.obj []))

/-- What another runtime says about a module. -/
def describeRemote (e : Nested) (client : Nat) (name : String) : Task ModuleDoc := do
  return Client.moduleDoc (← callRemote e client .getModuleInfo (Wire.writeInfoRequest name))

/-- The words of a module as another runtime describes them. -/
def remoteWord (client : Nat) (runtime module : String) (w : WordDoc) : Word :=
  .remote { name := w.name, effect := some w.effect, description := some w.description }
    client runtime module

/-- Adds the words of a module in another runtime to a module that stands for it. -/
def Store.addRemoteWords (s : Store) (m client : Nat) (runtime : String) (doc : ModuleDoc) :
    Store :=
  let module := (s.module m).name
  let s := doc.words.foldl (fun s w =>
    (s.addWord m (remoteWord client runtime module w)).updateModule m fun x =>
      x.addExports [w.name]) s
  s.updateModule m fun x => { x with description := doc.description }

/-- A module that stands for one in another runtime. -/
structure RemoteModule where
  module : Nat
  client : Nat
  runtime : String
  /-- What the other runtime said about the module, once it was asked. -/
  doc : Option ModuleDoc := none

/-- Asks another runtime for the words of a module, unless that was done, and adds them to the
module that stands for it. -/
def RemoteModule.discover (e : Nested) (r : RemoteModule) : Task RemoteModule := do
  if r.doc.isSome then return r
  let name ← Task.view fun _ s => (s.module r.module).name
  let doc ← describeRemote e r.client name
  Task.updateStore fun s => s.addRemoteWords r.module r.client r.runtime doc
  Task.log .debug "remote-module"
    ("Discovered " ++ toString doc.words.length ++ " word(s) in " ++ r.runtime ++ ":" ++ name)
  return { r with doc := some doc }

/-- Imports modules of a connected runtime. -/
def useRemoteModules (e : Nested) (client : Nat) (runtime qualifier : String) :
    List String → Task Unit
  | [] => pure ()
  | name :: rest => do
    let module ← Task.ofStore fun s => s.addModule { name }
    let r ← RemoteModule.discover e { module, client, runtime }
    importModule e r.module qualifier
    useRemoteModules e client runtime qualifier rest

/-- The deadline of the calls of a client in milliseconds. -/
def clientTimeout : Binary64 := 30000

/-! ## Native code -/

/-- The index of a pool. -/
def Pool.index (p : Pool) (i : Interp) : Nat :=
  match p with
  | .shared id => id
  | .own => i.pool

/-- The reply to a query. -/
def answer (e : Nested) : (q : Query) → Task q.Reply
  | .pop => Task.pop
  | .peek => fun i s =>
    match i.stack.top? with
    | some v => .done (.ok v) i s
    | none => .done (.fault i.underflow) i s
  | .popN n => Task.popN n
  | .top => Task.view fun i _ => i.stack.top?
  | .push v => Task.push v
  | .stack => Task.stack
  | .setStack vs => Task.setStack vs
  | .run source => Task.call (e.run source Location.origin)
  | .attempt source => do
    match ← Task.attempt (Task.call (e.run source Location.origin)) with
    | .ok _ => return (none : Option Fault)
    | .error f => return some f
  | .findWord name => do
    let w ← Task.lift (← Task.view fun i s => i.findWord s name none)
    match w.label.id with
    | some id => return (⟨id, w.name⟩ : Ref)
    | none => return ⟨← Task.ofStore Store.freshId, w.name⟩
  | .findModule name => do
    let m ← Task.lift ((← Task.interp).findModule name)
    return (⟨m, ← Task.view fun _ s => (s.module m).name⟩ : Ref)
  | .callLocation => Task.view fun i _ => i.call
  | .topInput => Task.view fun i _ => i.topInput
  | .variableNamed name => do
    let m ← Task.current "addVariable"
    return (⟨← Task.ofStore fun s => s.variableCell m name .null, name⟩ : Ref)
  | .fetch cell => Task.view fun _ s => s.fetch cell
  | .store cell v => Task.updateStore fun s => s.put cell v
  | .requireScope operation => do
    let _ ← Task.current operation
    return ()
  | .exportNames names => Task.updateCurrent "addExportable" fun m => m.addExports names
  | .useModules imports => Task.call (useModules e imports)
  | .startProfile => Task.update fun i => { i with profile := i.profile.start }
  | .stopProfile => Task.update fun i => { i with profile := i.profile.stop }
  | .stamp label => do
    let time ← Task.ofStore Store.readClock
    Task.update fun i => { i with profile := i.profile.stamp label time }
  | .profile => Task.view fun i _ => i.profile.toRecord
  | .print line => Task.updateStore fun s => s.print line
  | .fresh => Task.ofStore Store.freshId
  | .turn => Task.turn
  | .never => do
    let _ ← Task.wait .never
    return ()
  | .connect pool name address => fun i s =>
    .done (.ok ()) i (s.connect (pool.index i) name address clientTimeout)
  | .disconnect pool name => fun i s => .done (.ok ()) i (s.disconnect (pool.index i) name)
  | .connections pool => Task.view fun i s => (s.pool (pool.index i)).map (·.1)
  | .useRemote pool runtime qualifier modules => do
    match ← Task.view fun i s => (s.pool (pool.index i)).lookup runtime with
    | some client => useRemoteModules e client runtime qualifier modules
    | none =>
      Task.throw (.error ("Runtime '" ++ runtime ++ "' not connected. Use CONNECT-RUNTIME first."))

/-- Runs native code, answering its queries. -/
def perform (e : Nested) {α : Type} : Native α → Task α
  | .done a => pure a
  | .fail f => Task.throw f
  | .ask q next => do
    let r ← answer e q
    perform e (next r)

/-! ## Failures -/

/-- Tries handlers in order until one ends without a fault. -/
def tryHandlers (e : Nested) (name : String) (f : Fault) : List Handler → Task Bool
  | [] => return false
  | h :: rest => do
    match ← Task.attempt (Task.callCode false (perform e (h f))) with
    | .ok _ => return true
    | .error f' =>
      Task.log .debug "word" ("error handler for " ++ name ++ " declined: " ++ f'.message)
      tryHandlers e name f rest

/-- What becomes of the fault of a word with code behind it. -/
def recover (e : Nested) (label : WordLabel) (handlers : List Handler) (f : Fault) : Task Unit := do
  if f.isStop then Task.throw f
  else if ← Task.call (tryHandlers e label.name f handlers) then return
  else if f.isEngine then Task.throw f
  else
    let call ← Task.view fun i _ => i.call
    Task.throw (.nativeWord label.name (label.home.getD "") f.message (some f) call)

/-- Runs the code behind a word and sees to its fault. -/
def guarded (e : Nested) (label : WordLabel) (handlers : List Handler) (x : Task Unit) :
    Task Unit := do
  match ← Task.attempt x with
  | .ok _ => return
  | .error f => Task.call (recover e label handlers f)

/-! ## Words -/

/-- Takes the options from the top of the stack, if there are any. -/
def takeOptions : Task Options := fun i s =>
  match i.stack.values with
  | .options _ entries :: rest => .done (.ok ⟨entries⟩) { i with stack := ⟨rest⟩ } s
  | _ => .done (.ok .empty) i s

/-- Runs the code of a native word on its inputs and leaves the result. -/
def callNative (e : Nested) (inputs : Nat) (hasOptions waits : Bool)
    (code : List Val → Options → Native (Option Val)) : Task Unit := do
  let options ← if hasOptions then takeOptions else pure Options.empty
  let args ← Task.popN inputs
  match ← Task.callCode waits (perform e (code args options)) with
  | some v => Task.push v
  | none => return

/-- The value of a run of a memo's word: a run of its own, or the one in progress. -/
def refresh (cell : Nat) (run : Task Unit) : Task Val := do
  let entry ← Task.ofStore fun s =>
    let (entry, m) := (s.memo cell).enter
    (entry, s.setMemo cell m)
  match entry with
  | .begin =>
    let outcome ← Task.attempt (do Task.call run; Task.pop)
    Task.updateStore fun s => s.setMemo cell ((s.memo cell).finish outcome)
    Task.turn
    Task.updateStore fun s => s.setMemo cell ((s.memo cell).close outcome)
    Task.lift outcome
  | .join number =>
    Task.turn
    if (← Task.view fun _ s => (s.memo cell).outcome? number).isSome then Task.turn
    else
      let _ ← Task.wait (.memoRun cell number)
    let outcome ← Task.view fun _ s => (s.memo cell).outcome? number
    match outcome with
    | some o => Task.lift o
    | none => Task.exhausted

/-- Collects the values above the innermost mark into an array. -/
def closeArray : Task Unit := do
  let i ← Task.interp
  match i.marks with
  | [] => Task.throw (.unmatchedBracket i.topInput "]" i.call)
  | mark :: marks =>
    Task.update fun i => { i with marks }
    if i.stack.depth < mark then Task.throw i.underflow
    else
      let (items, stack) := i.stack.popAbove mark
      Task.update fun i => { i with stack := stack.push (.array items) }

/-- Enters a module block: the outermost module for the empty name, otherwise the child of the
current module, which is created when it is missing. A module created at the outermost level is
registered. -/
def openModule (name : String) : Task Unit := do
  if name.isEmpty then Task.update fun i => { i with scope := i.app :: i.scope }
  else
    let parent ← Task.current "children"
    match (← Task.view fun _ s => s.module parent).children.lookup name with
    | some child => Task.update fun i => { i with scope := child :: i.scope }
    | none =>
      let child ← Task.ofStore fun s =>
        let (child, s) := s.addModule { name }
        (child, s.updateModule parent fun m => m.addChild name child)
      Task.update fun i =>
        { i with
          registered :=
            if parent = i.app then Json.setField i.registered name child else i.registered
          scope := child :: i.scope }

/-- Leaves a module block; the outermost module cannot be left. -/
def closeModule : Task Unit := do
  let i ← Task.interp
  if i.scope.length ≤ 1 then Task.throw (.unmatchedBracket i.topInput "\x7d" i.call)
  else Task.update fun i => { i with scope := i.scope.tail }

/-- Notes that a word is dispatched. -/
def noteDispatch (w : Word) (location : Option Location) : Task Unit :=
  Task.update fun i =>
    { i with
      profile := if w.isProfiled then i.profile.count w.qualifiedName else i.profile
      call := location }

mutual
/-- Executes a word. -/
def execute (e : Nested) : Word → Task Unit
  | .constant _ v => Task.push v
  | .definition label body => do
    let call ← Task.view fun i _ => i.call
    executeBody e label.name call body
  | .native label inputs hasOptions waits code handlers =>
    guarded e label handlers (callNative e inputs hasOptions waits code)
  | .direct label waits code handlers =>
    guarded e label handlers (Task.callCode waits (perform e code))
  | .memo _ cell word => do
    match ← Task.view fun _ s => (s.memo cell).value with
    | some v => Task.push v
    | none => Task.push (← Task.call (refresh cell (execute e word)))
  | .memoRefresh _ cell word => do
    let _ ← Task.call (refresh cell (execute e word))
  | .memoReload _ cell word => do Task.push (← Task.call (refresh cell (execute e word)))
  | .openArray => Task.update fun i => { i with marks := i.stack.depth :: i.marks }
  | .closeArray => closeArray
  | .openModule name => openModule name
  | .closeModule => closeModule
  | .remote label client _ _ =>
    guarded e label [] do Task.setStack (← executeRemote e client label.name (← Task.stack))

/-- Executes the entries of a definition that was called at `call`. A fault of an entry tells where
the entry is, unless it is a stop on purpose. -/
def executeBody (e : Nested) (name : String) (call : Option Location) :
    List (Word × Location) → Task Unit
  | [] => pure ()
  | (w, location) :: rest => do
    match ← Task.attempt (Task.call do
        noteDispatch w (some location)
        Task.call (execute e w)) with
    | .ok _ => executeBody e name call rest
    | .error f =>
      if f.isStop then Task.throw f
      else
        Task.throw (.wordExecution ("Error executing " ++ name) (some f) call (some location))
end

/-- Executes a word once, counted while profiling. -/
def dispatch (e : Nested) (w : Word) (location : Option Location) : Task Unit := do
  noteDispatch w location
  Task.call (execute e w)

end Wordstack
