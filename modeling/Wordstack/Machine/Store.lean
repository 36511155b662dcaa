import Wordstack.Machine.Console
import Wordstack.Machine.Memo
import Wordstack.Module.Define
import Wordstack.Module.Registry
import Wordstack.Remote.Client

/-!
# The store

What interpreters share: modules, variable cells, memo cells, clients and pools of connections,
each kept by its index; the identities given out; the clock; the console; and the runtimes that
can be reached, with the requests sent to them.

- **Endpoints** (`Endpoint`): a frozen registry served under an address.
- **Stores** (`Store`) and their operations, each on one part.
- **Modules in the store** (`Store.module`, `Store.updateModule`, `Store.define`).
-/

namespace Wordstack

/-- A runtime: its registry and what its interpreters are made with. -/
structure Runtime where
  registry : Registry
  zone : Option String := none
  maxAttempts : Option Binary64 := none

/-- A runtime that can be reached under an address. -/
structure Endpoint where
  address : String
  runtime : Runtime
  /-- The time a request may take in milliseconds; zero or less for any time. -/
  timeout : Binary64
  /-- The origin whose pages may read responses. -/
  allowOrigin : String := "*"

/-- A request that was sent to another runtime. -/
structure SentRequest where
  url : String
  body : Json

/-- What interpreters share. -/
structure Store where
  modules : Array Module := #[]
  cells : Array Val := #[]
  memos : Array Memo := #[]
  clients : Array Client := #[]
  /-- Connections to other runtimes by name, each with its client. -/
  pools : Array (List (String × Nat)) := #[]
  nextId : Nat := 0
  /-- Milliseconds at each reading of the clock. -/
  clock : Nat → Binary64 := fun _ => 0
  readings : Nat := 0
  /-- The time that dates are taken from. -/
  now : Int := 0
  /-- The lines on the console, the latest first. -/
  console : List ConsoleLine := []
  level : LogLevel := .silent
  endpoints : List Endpoint := []
  /-- The requests sent, the latest first. -/
  sent : List SentRequest := []
  /-- Whether tasks take turns on the store. -/
  isShared : Bool := false

namespace Store

/-- The module at an index. -/
def module (s : Store) (i : Nat) : Module := s.modules[i]?.getD default

/-- Changes the module at an index. -/
def updateModule (s : Store) (i : Nat) (f : Module → Module) : Store :=
  { s with modules := s.modules.modify i f }

/-- Adds a module; the first component is its index. -/
def addModule (s : Store) (m : Module) : Nat × Store :=
  (s.modules.size, { s with modules := s.modules.push m })

/-- A new identity. -/
def freshId (s : Store) : Nat × Store := (s.nextId, { s with nextId := s.nextId + 1 })

/-- Adds the module of a declaration; its words take new identities. -/
def define (s : Store) (spec : ModuleSpec) : Except Fault (Nat × Store) := do
  let m ← spec.build s.nextId
  return addModule { s with nextId := s.nextId + m.words.length } m

/-- Adds a word to a module. -/
def addWord (s : Store) (i : Nat) (w : Word) : Store :=
  { s with nextId := s.nextId + 1 }.updateModule i fun m => m.addWord s.nextId w

/-- Adds a memo word for a word, and its two companions, to a module. -/
def addMemoWords (s : Store) (i : Nat) (w : Word) : Store :=
  let cell := s.memos.size
  let s := { s with memos := s.memos.push {} }
  let s := s.addWord i (.memo { name := w.name, location := w.label.location } cell w)
  let s := s.addWord i (.memoRefresh { name := w.name ++ "!" } cell w)
  s.addWord i (.memoReload { name := w.name ++ "!@" } cell w)

/-- Adds a variable cell. -/
def addCell (s : Store) (v : Val) : Nat × Store :=
  (s.cells.size, { s with cells := s.cells.push v })

/-- The cell of a variable of a module, created with a value when it is missing. -/
def variableCell (s : Store) (i : Nat) (name : String) (v : Val) : Nat × Store :=
  match (s.module i).cell? name with
  | some cell => (cell, s)
  | none =>
    let (cell, s) := s.addCell v
    (cell, s.updateModule i fun m => m.addVariable name cell)

/-- The value in a cell. -/
def fetch (s : Store) (cell : Nat) : Val := s.cells[cell]?.getD .null

/-- Puts a value into a cell. -/
def put (s : Store) (cell : Nat) (v : Val) : Store :=
  { s with cells := s.cells.setIfInBounds cell v }

/-- The memo at an index. -/
def memo (s : Store) (i : Nat) : Memo := s.memos[i]?.getD {}

/-- Replaces the memo at an index. -/
def setMemo (s : Store) (i : Nat) (m : Memo) : Store :=
  { s with memos := s.memos.setIfInBounds i m }

/-- Adds a pool without connections. -/
def addPool (s : Store) : Nat × Store := (s.pools.size, { s with pools := s.pools.push [] })

/-- The connections of a pool. -/
def pool (s : Store) (i : Nat) : List (String × Nat) := s.pools[i]?.getD []

/-- Connects under a name; a name that is connected keeps its client. -/
def connect (s : Store) (pool : Nat) (name address : String) (timeout : Binary64) : Store :=
  match (s.pool pool).lookup name with
  | some _ => s
  | none =>
    { s with
      clients := s.clients.push { address, timeout }
      pools := s.pools.setIfInBounds pool (s.pool pool ++ [(name, s.clients.size)]) }

/-- Closes a client. -/
def closeClient (s : Store) (i : Nat) : Store :=
  { s with clients := s.clients.modify i fun c => { c with closed := true } }

/-- Closes the client under a name and forgets the name. -/
def disconnect (s : Store) (pool : Nat) (name : String) : Store :=
  match (s.pool pool).lookup name with
  | some client =>
    { s.closeClient client with
      pools := s.pools.setIfInBounds pool ((s.pool pool).filter fun e => e.1 != name) }
  | none => s

/-- Closes all clients of a pool and forgets their names. -/
def disconnectAll (s : Store) (pool : Nat) : Store :=
  let closed := (s.pool pool).foldl (fun s e => s.closeClient e.2) s
  { closed with pools := s.pools.setIfInBounds pool [] }

/-- Reads the clock. -/
def readClock (s : Store) : Binary64 × Store :=
  (s.clock s.readings, { s with readings := s.readings + 1 })

/-- Writes a line to the console. -/
def print (s : Store) (line : String) : Store := { s with console := ⟨.log, line⟩ :: s.console }

/-- Writes a log line if its level is written. -/
def log (s : Store) (level : LogLevel) (scope message : String) : Store :=
  match logLine? s.level level scope message with
  | some line => { s with console := line :: s.console }
  | none => s

/-- A copy of a module with variable cells of its own; all else is shared. -/
def copyModule (s : Store) (i : Nat) : Nat × Store :=
  let m := s.module i
  let (cells, s) := m.cells.foldl (fun (acc, s) (name, cell) =>
    let (cell', s) := s.addCell (s.fetch cell)
    (acc ++ [(name, cell')], s)) ([], s)
  s.addModule { m with cells }

end Store

end Wordstack
