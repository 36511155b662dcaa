import Wordstack.Wire.Encode
import Wordstack.Wire.Decode

/-!
# Requests

The four methods of the bridge between runtimes and the bodies of their requests.

- **Methods** (`Method`): running a word, running words in sequence, listing modules, describing
  one.
- **Requests** (`WordRequest`, `SequenceRequest`, `InfoRequest`): their stacks are in the form that
  encoding gives, so a request that is read again is the same.
- **Responses** (`StackResponse`): the resulting stack, or what went wrong and no stack.
-/

namespace Wordstack

/-- The methods of the bridge. -/
inductive Method where
  | executeWord
  | executeSequence
  | listModules
  | getModuleInfo
deriving DecidableEq

namespace Method

/-- The methods with their names. -/
def named : List (String × Method) := [
  ("ExecuteWord", executeWord), ("ExecuteSequence", executeSequence),
  ("ListModules", listModules), ("GetModuleInfo", getModuleInfo)]

/-- The name of a method. -/
def name : Method → String
  | executeWord => "ExecuteWord"
  | executeSequence => "ExecuteSequence"
  | listModules => "ListModules"
  | getModuleInfo => "GetModuleInfo"

/-- The method of a name. -/
def ofName? (s : String) : Option Method := named.lookup s

end Method

/-- Run one word on a stack. -/
structure WordRequest where
  word : String
  stack : List Json

/-- Run words one after the other on a stack. -/
structure SequenceRequest where
  words : List String
  stack : List Json

/-- Describe a module. -/
structure InfoRequest where
  module : String

/-- The stack after a run, empty when there is a report. -/
structure StackResponse where
  stack : List Json
  failure : Option Report

namespace Wire

/-- A stack in the form that encoding gives. -/
def normalStack (x : Option Json) : Except Fault (List Json) := do
  encodeStack (← decodeStack "stack" x)

/-- The fields of a request body; a missing one has none. -/
def bodyFields : Option Json → Except Fault (List (String × Json))
  | none | some .null => .ok []
  | some x => expectObject "request" x

/-- The names in an array; `i` is the index of the first one. -/
def names (i : Nat) : List Json → Except Fault (List String)
  | [] => .ok []
  | x :: xs => do
    let s ← expectString (indexed "word_names" i) (some x)
    let rest ← names (i + 1) xs
    return s :: rest

/-- The request to run a word. -/
def readWordRequest (body : Option Json) : Except Fault WordRequest := do
  let fields ← bodyFields body
  let word ← expectString "word_name" (fields.lookup "word_name")
  if word.isEmpty then .error (.wireFormat "word_name: must not be empty")
  else return ⟨word, ← normalStack (fields.lookup "stack")⟩

/-- The request to run words in sequence. -/
def readSequenceRequest (body : Option Json) : Except Fault SequenceRequest := do
  let fields ← bodyFields body
  let words ← match fields.lookup "word_names" with
    | none | some .null => .ok []
    | some (.arr items) => names 0 items
    | some _ => expected "word_names" "an array"
  return ⟨words, ← normalStack (fields.lookup "stack")⟩

/-- The request to describe a module. -/
def readInfoRequest (body : Option Json) : Except Fault InfoRequest := do
  let fields ← bodyFields body
  return ⟨← expectString "module_name" (fields.lookup "module_name")⟩

/-- The wire form of a request to run a word. -/
def writeWordRequest (word : String) (stack : List Json) : Json :=
  .obj [("word_name", .str word), ("stack", .arr stack)]

/-- The wire form of a request to run words in sequence. -/
def writeSequenceRequest (words : List String) (stack : List Json) : Json :=
  .obj [("word_names", Json.strs words), ("stack", .arr stack)]

/-- The wire form of a request to describe a module. -/
def writeInfoRequest (module : String) : Json := .obj [("module_name", .str module)]

/-- The body of a request as it is written again after it was read. -/
def normalRequest (m : Method) (body : Option Json) : Except Fault Json :=
  match m with
  | .executeWord => (readWordRequest body).map fun r => writeWordRequest r.word r.stack
  | .executeSequence => (readSequenceRequest body).map fun r => writeSequenceRequest r.words r.stack
  | .getModuleInfo => (readInfoRequest body).map fun r => writeInfoRequest r.module
  | .listModules => .ok (.obj [])

/-- The wire form of a response. -/
def writeStackResponse (r : StackResponse) : Json :=
  Json.ofFields [("result_stack", some (.arr r.stack)), ("error", r.failure.map Report.toJson)]

end Wire

end Wordstack
