import Wordstack.Fault.Basic
import Wordstack.Value.Display

/-!
# Native code

What the code behind a word does, as a tree: it ends with a result or a fault, or it asks its
interpreter something and goes on with the reply. The queries speak of values, names and source
texts only, so native code cannot reach into words, modules or other interpreters.

- **Options** (`Options`): keyword options for a word, as a list of keys and values in which each key
  stands once; from alternating keys and values (`Options.ofFlat`), and what is seen of them
  (`Options.get?`, `Options.toRecord`, `Options.toText`).
- **Queries** (`Query`) and the kind of reply to each (`Query.Reply`).
- **Code** (`Native`), a monad.
- **Handlers** (`Handler`): code to run after a fault; ending without a fault handles it.
-/

namespace Wordstack

/-! ## Options -/

/-- Keyword options: each key once, in insertion order. -/
structure Options where
  entries : List (String × Val)

namespace Options

/-- No options. -/
def empty : Options := ⟨[]⟩

/-- Options of the given entries: a repeated key keeps its first place and its last value. -/
def ofEntries (entries : List (String × Val)) : Options := ⟨Json.distinctFields entries⟩

/-- The keys and values of alternating items; `i` is the index of the first one. -/
def pairUp (i : Nat) : List Val → Except Fault (List (String × Val))
  | key :: value :: rest =>
    match key with
    | .str k => return (k, value) :: (← pairUp (i + 2) rest)
    | v =>
      .error (.badOptions
        ("Option key must be a string (got " ++ v.kindName ++ " at index " ++ toString i ++ ")"))
  | _ => .ok []

/-- Options of alternating keys and values. -/
def ofFlat (items : List Val) : Except Fault Options :=
  if items.length % 2 != 0 then
    .error (.badOptions
      ("Options must be key-value pairs (got " ++ toString items.length ++ " items)"))
  else (pairUp 0 items).map ofEntries

/-- The value of a key. -/
def get? (o : Options) (key : String) : Option Val := o.entries.lookup key

/-- Whether there is a value for the key. -/
def has (o : Options) (key : String) : Bool := (o.get? key).isSome

/-- The keys in order. -/
def keys (o : Options) : List String := o.entries.map (·.1)

/-- The options as a record. -/
def toRecord (o : Options) : Val := .record o.entries

/-- The options on one line. -/
def toText (o : Options) : String := Text.join " " (Val.displayEntries o.entries)

end Options

/-! ## Code -/

/-- The connections to other runtimes that a query is about: a shared pool, or the one of the
interpreter that asks. -/
inductive Pool where
  | shared (id : Nat)
  | own
deriving DecidableEq

/-- What native code can ask of its interpreter. -/
inductive Query where
  /-- Take the top value; an empty stack is a fault. -/
  | pop
  /-- Look at the top value; an empty stack is a fault. -/
  | peek
  /-- Take `n` values, deepest first; fewer values are a fault and stay. -/
  | popN (n : Nat)
  /-- Look at the top value if there is one. -/
  | top
  | push (v : Val)
  /-- All values, deepest first. -/
  | stack
  | setStack (vs : List Val)
  /-- Run source text in the current scope. -/
  | run (source : String)
  /-- Run source text; a fault is the reply. -/
  | attempt (source : String)
  | findWord (name : String)
  | findModule (name : String)
  /-- The location of the word being dispatched. -/
  | callLocation
  /-- The text of the outermost run in progress. -/
  | topInput
  /-- The variable of the current module, created when it is missing. -/
  | variableNamed (name : String)
  | fetch (cell : Nat)
  | store (cell : Nat) (v : Val)
  /-- Whether there is a current module to act on with the named operation; none is a fault. -/
  | requireScope (operation : String)
  /-- Add names to the exports of the current module. -/
  | exportNames (names : List String)
  /-- Import modules by name and qualifier into the current module. -/
  | useModules (imports : List (String × String))
  | startProfile
  | stopProfile
  | stamp (label : String)
  | profile
  /-- Write a line to the console. -/
  | print (line : String)
  /-- A new identity. -/
  | fresh
  /-- Let others go on first. -/
  | turn
  /-- Wait for something that never happens. -/
  | never
  | connect (pool : Pool) (name address : String)
  | disconnect (pool : Pool) (name : String)
  | connections (pool : Pool)
  /-- Import modules of a connected runtime under a qualifier. -/
  | useRemote (pool : Pool) (runtime qualifier : String) (modules : List String)

/-- The kind of reply to a query. -/
def Query.Reply : Query → Type
  | pop | peek | profile | fetch _ => Val
  | popN _ | stack => List Val
  | top => Option Val
  | attempt _ => Option Fault
  | findWord _ | findModule _ | variableNamed _ => Ref
  | callLocation => Option Location
  | topInput => String
  | fresh => Nat
  | connections _ => List String
  | _ => Unit

/-- Native code that ends with a result, ends with a fault, or asks and goes on. -/
inductive Native (α : Type) where
  | done (a : α)
  | fail (f : Fault)
  | ask (q : Query) (next : q.Reply → Native α)

namespace Native

/-- Goes on with the result of `x`. -/
def bind {α β : Type} (x : Native α) (f : α → Native β) : Native β :=
  match x with
  | done a => f a
  | fail e => fail e
  | ask q next => ask q fun r => (next r).bind f

instance : Monad Native where
  pure := done
  bind := bind

instance {α : Type} : Inhabited (Native α) := ⟨fail default⟩

/-- One query. -/
def query (q : Query) : Native q.Reply := ask q done

/-- The outcome of a computation that may fail. -/
def lift {α : Type} : Except Fault α → Native α
  | .ok a => done a
  | .error f => fail f

end Native

/-- Native code to run after a fault. -/
abbrev Handler := Fault → Native Unit

end Wordstack
