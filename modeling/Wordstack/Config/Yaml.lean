import Wordstack.Binary64.Read
import Wordstack.Json.Basic
import Wordstack.Text.Basic

/-!
# A simple YAML

Maps, lists of scalars or maps, and scalars, one entry on a line. Deeper indentation opens what a
key without a value holds. Lines that fit nowhere are passed over.

- **Lines** (`YamlLine.read?`): indentation and text; blank lines and comments are none.
- **Entries** (`keyed?`): a key, a colon, and a value after blanks or nothing.
- **Scalars** (`yamlScalar`).
- **Documents** (`readYaml`): the containers that are open, innermost first, and the key that waits
  for its value.
-/

namespace Wordstack

/-! ## Lines -/

/-- A line with something on it: its indentation in 16-bit units and its text. -/
structure YamlLine where
  indent : Nat
  text : List Char

namespace YamlLine

/-- The content of a line, none for blank lines and comments. -/
def read? (cs : List Char) : Option YamlLine :=
  match Text.trimChars cs with
  | [] => none
  | '#' :: _ => none
  | text => some ⟨Text.units (cs.takeWhile Text.isBlank), text⟩

/-- What follows the dash of a list item, with the indentation it has; none for other lines. -/
def item? (l : YamlLine) : Option YamlLine :=
  match l.text with
  | ['-'] => some ⟨l.indent + 1, []⟩
  | '-' :: ' ' :: rest =>
    let blanks := rest.takeWhile Text.isBlank
    some ⟨l.indent + 2 + Text.units blanks, rest.dropWhile Text.isBlank⟩
  | _ => none

end YamlLine

/-- Characters that end a line. -/
def endsLine (c : Char) : Bool := c == '\n' || c == '\r' || c == '\u2028' || c == '\u2029'

/-- The key and the value of a line. A key holds no colon and does not begin with a blank, `#` or
`-`. -/
def keyed? (cs : List Char) : Option (String × List Char) :=
  match cs with
  | [] => none
  | c :: _ =>
    if Text.isBlank c || c == ':' || c == '#' || c == '-' then none
    else
      let key := cs.takeWhile (· != ':')
      let known := fun (value : List Char) =>
        some (String.ofList (Text.trimChars key), Text.trimChars value)
      match cs.dropWhile (· != ':') with
      | [] => none
      | [_] => known []
      | _ :: d :: rest =>
        let value := rest.dropWhile Text.isBlank
        if Text.isBlank d && !value.any endsLine then known value else none

/-! ## Scalars -/

/-- The text between the quotes of a quoted text. -/
def unquoted? (cs : List Char) : Option (List Char) :=
  match cs.head?, cs.getLast? with
  | some a, some b => if a == b && (a == '"' || a == '\'') then some (cs.drop 1).dropLast else none
  | _, _ => none

/-- The number of a text of digits, with a minus before them or a part after a point. -/
def plainNumber? (cs : List Char) : Option Binary64 :=
  let (negative, digits) := match cs with
    | '-' :: r => (true, r)
    | r => (false, r)
  let whole := digits.takeWhile Char.isDigit
  let valid := match digits.dropWhile Char.isDigit with
    | [] => !whole.isEmpty
    | '.' :: places => !whole.isEmpty && Text.allDigits places
    | _ => false
  if valid then Binary64.readDecimal negative digits else none

/-- The value of a scalar. -/
def yamlScalar (cs : List Char) : Json :=
  match String.ofList cs with
  | "true" => .bool true
  | "false" => .bool false
  | "null" | "~" => .null
  | "[]" => .arr []
  | "\x7b\x7d" => .obj []
  | s =>
    match plainNumber? cs, unquoted? cs with
    | some x, _ => .num x
    | none, some inner => .str (String.ofList inner)
    | none, none => .str s

/-! ## Documents -/

/-- A container that is open: its indentation, what it holds so far, and its key when it is the
value of one; otherwise it is an item. -/
structure YamlFrame where
  indent : Int
  value : Json
  key : Option String

/-- Sets a key of a map. The key `__proto__` names no entry. -/
def setYamlKey (map : Json) (key : String) (x : Json) : Json :=
  match map with
  | .obj fields => if key == "__proto__" then map else .obj (Json.setField fields key x)
  | x => x

namespace YamlFrame

/-- Whether the container is a list. -/
def isList (f : YamlFrame) : Bool :=
  match f.value with
  | .arr _ => true
  | _ => false

/-- Sets a key of the container, if it is a map. -/
def setKey (f : YamlFrame) (key : String) (x : Json) : YamlFrame :=
  { f with value := setYamlKey f.value key x }

/-- Appends to the container, if it is a list. -/
def append (f : YamlFrame) (x : Json) : YamlFrame :=
  match f.value with
  | .arr items => { f with value := .arr (items ++ [x]) }
  | _ => f

/-- Puts a finished container into the one around it. -/
def absorb (outer inner : YamlFrame) : YamlFrame :=
  match inner.key with
  | some key => outer.setKey key inner.value
  | none => outer.append inner.value

end YamlFrame

/-- The state between two lines: the innermost container and those around it, and a key that waits
for its value, with its indentation. -/
structure YamlState where
  top : YamlFrame := ⟨-1, .obj [], none⟩
  outer : List YamlFrame := []
  waiting : Option (String × Nat) := none

namespace YamlState

/-- Opens a container inside the innermost one. -/
def openFrame (s : YamlState) (f : YamlFrame) : YamlState :=
  { s with top := f, outer := s.top :: s.outer }

/-- Gives the waiting key a container if the line is inside it, otherwise null. -/
def settle (s : YamlState) (l : YamlLine) : YamlState :=
  match s.waiting with
  | none => s
  | some (key, indent) =>
    let isItem := l.item?.isSome
    let s := { s with waiting := none }
    if indent < l.indent || (isItem && l.indent = indent) then
      s.openFrame ⟨l.indent, if isItem then .arr [] else .obj [], some key⟩
    else { s with top := s.top.setKey key .null }

/-- Closes the containers that a line is no longer inside. -/
def leave (indent : Nat) (isItem : Bool) (top : YamlFrame) :
    List YamlFrame → YamlFrame × List YamlFrame
  | [] => (top, [])
  | f :: outer =>
    if (indent : Int) < top.indent || (top.isList && !isItem && (indent : Int) ≤ top.indent) then
      leave indent isItem (f.absorb top) outer
    else (top, f :: outer)

/-- Takes the key and the value of a line into the innermost container, if that is a map. -/
def addEntry (s : YamlState) (indent : Nat) (text : List Char) : YamlState :=
  if s.top.isList then s
  else
    match keyed? text with
    | none => s
    | some (key, []) => { s with waiting := some (key, indent) }
    | some (key, value) => { s with top := s.top.setKey key (yamlScalar value) }

/-- Takes a line. -/
def step (s : YamlState) (l : YamlLine) : YamlState :=
  let s := s.settle l
  let (top, outer) := leave l.indent l.item?.isSome s.top s.outer
  let s := { s with top, outer }
  match l.item? with
  | none => s.addEntry l.indent l.text
  | some rest =>
    if !s.top.isList then s
    else if (keyed? rest.text).isNone then
      { s with top := s.top.append (if rest.text.isEmpty then .null else yamlScalar rest.text) }
    else (s.openFrame ⟨rest.indent, .obj [], none⟩).addEntry rest.indent rest.text

/-- Closes all containers. -/
def finish (s : YamlState) : Json :=
  let top := match s.waiting with
    | some (key, _) => s.top.setKey key .null
    | none => s.top
  (s.outer.foldl (fun inner outer => outer.absorb inner) top).value

end YamlState

/-- The map that a text in simple YAML holds. -/
def readYaml (text : String) : Json :=
  (((Text.splitCharsAt '\n' text.toList).filterMap YamlLine.read?).foldl YamlState.step {}).finish

end Wordstack
