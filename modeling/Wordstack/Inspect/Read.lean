import Wordstack.Binary64.Read
import Wordstack.Inspect.Value
import Wordstack.Json.Read
import Wordstack.Machine.Store

/-!
# Values from tools

Reads the tagged values that `Inspect.value` shows. A reference is made anew, so it equals no other;
what is no tagged value is read as null.

- **Values** (`Inspect.readValue`), **fields** (`Inspect.readEntries`): the store makes the
  references.
- **Parts** (`Inspect.readNumber`, `Inspect.readInt`, `Inspect.readLocation`).
-/

namespace Wordstack.Inspect

/-- A number from its text, the negative zero from `-0`. -/
def readNumber (s : String) : Binary64 :=
  if s == "-0" then Binary64.zero true else Binary64.ofText s

/-- An integer from its decimal digits. -/
def readInt (s : String) : Int := Text.toInt s.toList

/-- A value whose content is a text, or nothing. -/
def readAtom (tag zone : String) (content : Json) : StateM Store Val := do
  let s := content.asText
  match tag with
  | "Int" => return .int (readInt s)
  | "Float" => return .float (readNumber s)
  | "Bool" => return .bool content.asFlag
  | "Str" => return .str s
  | "Instant" => return .instant s
  | "PlainDate" => return .plainDate s
  | "ZonedDateTime" => return .zoned s zone
  | "WordRef" => return .wordRef ⟨← modifyGet Store.freshId, s⟩
  | "ModuleRef" => return .moduleRef ⟨← modifyGet fun st => st.addModule { name := s }, s⟩
  | "VariableRef" => return .variableRef ⟨← modifyGet fun st => st.addCell .null, s⟩
  | _ => return .null

mutual
/-- A tagged value. -/
def readValue (x : Json) : StateM Store Val :=
  match x with
  | .obj fields => readTagged (x.part "t").asText (x.part "tz").asText fields
  | _ => return .null

/-- The value of a tag with the content among the fields. -/
def readTagged (tag zone : String) : List (String × Json) → StateM Store Val
  | [] => readAtom tag zone .null
  | (key, x) :: fields => if key == "v" then readContent tag zone x else readTagged tag zone fields

/-- The value of a tag with a content. -/
def readContent (tag zone : String) (x : Json) : StateM Store Val :=
  match tag, x with
  | "Array", .arr items => return .array (← readValues items)
  | "Record", .arr items => return .ofFields (← readEntries items)
  | "Options", .arr items => do
    let fields ← readEntries items
    return .options (← modifyGet Store.freshId) (Json.distinctFields fields)
  | tag, x => readAtom tag zone x

/-- The values of a list. -/
def readValues : List Json → StateM Store (List Val)
  | [] => return []
  | x :: xs => return (← readValue x) :: (← readValues xs)

/-- The fields in a list of pairs. -/
def readEntries : List Json → StateM Store (List (String × Val))
  | [] => return []
  | x :: xs => do
    let entry ← match x with
      | .arr [.str key, content] => do pure (key, ← readValue content)
      | _ => pure ("", .null)
    return entry :: (← readEntries xs)
end

/-- A location from the list of its parts. -/
def readLocation (x : Json) : Option Location :=
  match x.asItems with
  | [s, l, c, a, b] => some ⟨s.str?, l.asInt, c.asInt, a.asInt, b.asInt⟩
  | _ => none

end Wordstack.Inspect
