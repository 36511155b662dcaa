import Wordstack.Word.Native
import Wordstack.Word.Effect

/-!
# Words

A word is what a name stands for when it is executed.

- **Labels** (`WordLabel`): identity, name, the module it belongs to and its documentation.
- **Words** (`Word`): constants, definitions with their compiled body, native words, memo words
  with their two companions, brackets, and words of other runtimes.
- **Dispatch names** (`Word.dispatchName?`): the name under which executions are counted.
-/

namespace Wordstack

/-- What is known about a word besides what it does. -/
structure WordLabel where
  name : String
  /-- The identity of a word that belongs to a module. -/
  id : Option Nat := none
  /-- The name of the module that the word belongs to. -/
  home : Option String := none
  effect : Option String := none
  description : Option String := none
  location : Option Location := none

/-- An executable unit of the vocabulary. -/
inductive Word where
  | constant (label : WordLabel) (value : Val)
  /-- The compiled words in order, each with its location in the source. -/
  | definition (label : WordLabel) (body : List (Word × Location))
  /-- Native code that takes inputs from the stack and leaves at most one result. Code that `waits`
  is a task of its own. -/
  | native (label : WordLabel) (inputs : Nat) (takesOptions : Bool) (waits : Bool)
      (code : List Val → Options → Native (Option Val)) (handlers : List Handler)
  /-- Native code that works on the stack itself. -/
  | direct (label : WordLabel) (waits : Bool) (code : Native Unit) (handlers : List Handler)
  /-- Leaves the remembered value of a word, which is run when there is none. -/
  | memo (label : WordLabel) (cell : Nat) (word : Word)
  /-- Runs the word of a memo and remembers its value. -/
  | memoRefresh (label : WordLabel) (cell : Nat) (word : Word)
  /-- Runs the word of a memo, remembers its value and leaves it. -/
  | memoReload (label : WordLabel) (cell : Nat) (word : Word)
  | openArray
  | closeArray
  | openModule (name : String)
  | closeModule
  /-- A word of a module in another runtime, called through a client. -/
  | remote (label : WordLabel) (client : Nat) (runtime module : String)

namespace Word

/-- The label of a word; brackets have only a name. -/
def label : Word → WordLabel
  | constant l _ | definition l _ | native l _ _ _ _ _ | direct l _ _ _ | memo l _ _ |
    memoRefresh l _ _ | memoReload l _ _ | remote l _ _ _ => l
  | openArray => { name := "[" }
  | closeArray => { name := "]" }
  | openModule name => { name := "\x7b" ++ name }
  | closeModule => { name := "\x7d" }

/-- The name of a word. -/
def name (w : Word) : String := w.label.name

/-- The word with another label; brackets have a fixed one. -/
def relabel (f : WordLabel → WordLabel) : Word → Word
  | constant l v => constant (f l) v
  | definition l body => definition (f l) body
  | native l n o waits code hs => native (f l) n o waits code hs
  | direct l waits code hs => direct (f l) waits code hs
  | memo l cell w => memo (f l) cell w
  | memoRefresh l cell w => memoRefresh (f l) cell w
  | memoReload l cell w => memoReload (f l) cell w
  | remote l client runtime module => remote (f l) client runtime module
  | w => w

/-- The name with the module before it, for words of a named module. -/
def qualifiedName (w : Word) : String :=
  match w.label.home with
  | some m => if m.isEmpty then w.name else m ++ "." ++ w.name
  | none => w.name

/-- Whether executions of the word are counted: constants and brackets are not. -/
def isProfiled : Word → Bool
  | constant .. | openArray | closeArray | openModule _ | closeModule => false
  | _ => true

/-- The handlers of a word. -/
def handlers : Word → List Handler
  | native _ _ _ _ _ hs | direct _ _ _ hs => hs
  | _ => []

end Word

end Wordstack
