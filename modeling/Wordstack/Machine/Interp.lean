import Wordstack.Machine.OperandStack
import Wordstack.Machine.Profile
import Wordstack.Machine.Store
import Wordstack.Source.Literal

/-!
# Interpreters

- **Open definitions** (`OpenDefinition`): a definition that is being compiled.
- **Interpreters** (`Interp`): operand stack, modules in scope, literals, compile state and the
  places that faults refer to.
- **Scopes** (`Interp.current?`, `Interp.scopeChain`, `Interp.findWord`, `Interp.resolve`).
- **Transient state** (`Interp.transient`, `Interp.restore`): what a failed run puts back.
- **Making one** (`Interp.create`, `Interp.duplicate`, `Interp.reset`).
-/

namespace Wordstack

/-- A definition that is being compiled. -/
structure OpenDefinition where
  name : String
  location : Location
  body : List (Word × Location) := []

/-- The word of a definition. -/
def OpenDefinition.word (d : OpenDefinition) : Word :=
  .definition { name := d.name, location := some d.location } d.body

/-- The state of one interpreter. Modules are given by their index in the store. -/
structure Interp where
  /-- Whether the core vocabulary is part of it. -/
  isStandard : Bool
  registry : Registry
  zone : String
  maxAttempts : Binary64
  /-- Code to run after a fault of a run, which then goes on. -/
  recovery : Option Handler
  /-- The outermost module. -/
  app : Nat
  /-- The modules in scope, innermost first. -/
  scope : List Nat
  /-- Modules registered with this interpreter. -/
  registered : List (String × Nat) := []
  readers : List LiteralReader
  stack : OperandStack := {}
  profile : Profile := {}
  /-- The texts of the runs in progress, innermost first. -/
  inputs : List String := []
  /-- Where the latest token is. -/
  previous : Option Location := none
  /-- Where the word being dispatched is. -/
  call : Option Location := none
  compiling : Bool := false
  /-- Whether the open definition is one of a memo word. -/
  memoDefinition : Bool := false
  definition : Option OpenDefinition := none
  /-- The depths of the stack at the open brackets, innermost first. -/
  marks : List Nat := []
  /-- Imported modules whose source has not been run. -/
  pending : List Nat := []
  /-- Modules whose source is being run. -/
  initializing : List Nat := []
  /-- The pool of connections of its own. -/
  pool : Nat

/-- What a failed run puts back. -/
structure Transient where
  compiling : Bool
  memoDefinition : Bool
  definition : Option OpenDefinition
  marks : Nat
  scope : Nat

namespace Interp

/-- The attempts that a run with recovery has unless a number is given. -/
def defaultAttempts : Binary64 := 3

/-- The text of the outermost run in progress, empty when there is none. -/
def topInput (i : Interp) : String := i.inputs.getLast?.getD ""

/-- The innermost module in scope. -/
def current? (i : Interp) : Option Nat := i.scope.head?

/-- The names of the modules in scope, innermost first; the outermost module is called `app`. -/
def scopeChain (i : Interp) (s : Store) : List String :=
  i.scope.map fun m =>
    let name := (s.module m).name
    if name.isEmpty then "app" else name

/-- The value of a literal. -/
def literal? (i : Interp) (text : String) : Option Val := i.readers.findSome? fun r => r text

/-- The word that a name stands for in the scopes, the innermost first. -/
def findWord (i : Interp) (s : Store) (name : String) (location : Option Location) :
    Except Fault Word :=
  match i.scope.findSome? fun m => findIn? s.modules m name with
  | some w => .ok w
  | none => .error (.unknownWord i.topInput name (i.scopeChain s) (location.or i.call))

/-- What a text stands for: a literal, or a word. -/
def resolve (i : Interp) (s : Store) (text : String) (location : Option Location) :
    Except Fault Word :=
  match i.literal? text with
  | some v => .ok (.constant { name := text } v)
  | none => i.findWord s text location

/-- The module of a name: registered with the interpreter, or in its registry. -/
def findModule (i : Interp) (name : String) : Except Fault Nat :=
  match (i.registered.lookup name).or (i.registry.get? name) with
  | some m => .ok m
  | none => .error (.unknownModule i.topInput name i.call)

/-- All modules that the interpreter finds by name, those of the registry first. -/
def modules (i : Interp) : List Nat :=
  (Json.distinctFields (i.registry.entries ++ i.registered)).map (·.2)

/-- Registers a module under its name. -/
def register (i : Interp) (s : Store) (m : Nat) : Interp :=
  { i with registered := Json.setField i.registered (s.module m).name m }

/-- The fault of taking more values than there are. -/
def underflow (i : Interp) : Fault := .stackUnderflow i.topInput i.call

/-- What has to be put back if the run that starts now fails. -/
def transient (i : Interp) : Transient :=
  ⟨i.compiling, i.memoDefinition, i.definition, i.marks.length, i.scope.length⟩

/-- The outermost `n` items of a list kept innermost first. -/
def outermost {α : Type} (n : Nat) (xs : List α) : List α := xs.drop (xs.length - n)

/-- Puts the compile state back, and removes brackets and modules opened since. -/
def restore (i : Interp) (t : Transient) : Interp :=
  { i with
    compiling := t.compiling
    memoDefinition := t.memoDefinition
    definition := t.definition
    marks := outermost t.marks i.marks
    scope := outermost t.scope i.scope }

/-- Clears the stack, the variables of the outermost module, the scopes and the compile state. -/
def reset (i : Interp) (s : Store) : Interp × Store :=
  ({ i with
    stack := {}, compiling := false, memoDefinition := false, definition := none, marks := []
    scope := [i.app], previous := none, call := none },
   s.updateModule i.app fun m => { m with cells := [] })

/-- An interpreter with nothing in scope: a place for tasks that only run on others. -/
def host : Interp where
  isStandard := false
  registry := {}
  zone := "UTC"
  maxAttempts := defaultAttempts
  recovery := none
  app := 0
  scope := []
  readers := []
  pool := 0

/-- What an interpreter is made with. -/
structure Settings where
  registry : Registry := {}
  zone : Option String := none
  maxAttempts : Option Binary64 := none
  recovery : Option Handler := none

/-- An interpreter without modules. -/
def bare (s : Store) (settings : Settings) (isStandard : Bool) : Except Fault (Interp × Store) :=
  let zone := settings.zone.getD "UTC"
  if Calendar.isZone zone then
    let (app, s) := s.addModule { name := "" }
    let (pool, s) := s.addPool
    .ok ({
      isStandard, registry := settings.registry, zone
      maxAttempts := settings.maxAttempts.getD defaultAttempts
      recovery := settings.recovery
      app, scope := [app], readers := Literal.standard zone s.now, pool }, s)
  else .error (.general "" ("Unknown timezone: " ++ zone) none none)

/-- Imports a module into the outermost one; its source is run before the first run. -/
def importAtCreation (is : Interp × Store) (m : Nat) : Interp × Store :=
  let (i, s) := is
  let s := s.updateModule i.app fun app => app.addImport ⟨m, ""⟩
  (if (s.module m).isReady then i else { i with pending := i.pending ++ [m] }, s)

/-- Registers and imports a module. -/
def attach (is : Interp × Store) (m : Nat) : Interp × Store :=
  importAtCreation (is.1.register is.2 m, is.2) m

/-- A copy with its own stack and its own variables in the outermost module. The registered modules
are shared. -/
def duplicate (i : Interp) (s : Store) : Interp × Store :=
  let (app, s) := s.copyModule i.app
  let (pool, s) := s.addPool
  ({
    isStandard := i.isStandard, registry := i.registry, zone := i.zone
    maxAttempts := i.maxAttempts, recovery := i.recovery, app, scope := [app]
    registered := i.registered, readers := i.readers, stack := i.stack, pending := i.pending
    pool }, s)

end Interp

end Wordstack
