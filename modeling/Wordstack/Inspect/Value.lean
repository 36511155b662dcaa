import Wordstack.Binary64.Show
import Wordstack.Json.Basic
import Wordstack.Value.Plain
import Wordstack.Source.Location

/-!
# Values for inspection

What tools see of values: JSON in which every value has its tag, also those that are never sent,
and in which no number loses anything.

- **Numbers** (`Inspect.number`): a safe integer stands as it is; any other number, the negative
  zero among them, stands as its text.
- **Data** (`Inspect.data`): JSON with its numbers in that form.
- **Values** (`Inspect.value`): references are shown by their names.
- **Plain data** (`Inspect.plain`): what the host sees of a value.
- **Locations** (`Inspect.location`): source, line, column and the two ends.
-/

namespace Wordstack.Inspect

/-- The text of a number, the negative zero with its sign. -/
def numberText (x : Binary64) : String := if x.isNegativeZero then "-0" else x.toText

/-- A number: plain when it is a safe integer, and else its text. -/
def number (x : Binary64) : Json :=
  if x.toSafeInt?.isSome && !x.isNegativeZero then .num x
  else .obj [("num", .str (numberText x))]

/-- A natural number. -/
def nat (n : Nat) : Json := Json.int n

/-- Nothing is shown as null. -/
def option {α : Type} (f : α → Json) : Option α → Json
  | some a => f a
  | none => .null

/-- What is known, and null for what is not. -/
def text? : Option String → Json := option .str

mutual
/-- JSON whose numbers lose nothing. -/
def data : Json → Json
  | .num x => number x
  | .arr items => .arr (dataItems items)
  | .obj fields => .obj (dataFields fields)
  | .null => .null
  | .bool b => .bool b
  | .str s => .str s

/-- `Inspect.data` on the items of an array. -/
def dataItems : List Json → List Json
  | [] => []
  | x :: xs => data x :: dataItems xs

/-- `Inspect.data` on the fields of an object. -/
def dataFields : List (String × Json) → List (String × Json)
  | [] => []
  | (k, x) :: xs => (k, data x) :: dataFields xs
end

/-- What is shown of a value under its tag. -/
def tagged (tag : String) (shown : Json) : Json := .obj [("t", .str tag), ("v", shown)]

mutual
/-- A value with its tag. -/
def value : Val → Json
  | .int n => tagged "Int" (.str (toString n))
  | .float x => tagged "Float" (.str (numberText x))
  | .bool b => tagged "Bool" (.bool b)
  | .str s => tagged "Str" (.str s)
  | .null => .obj [("t", .str "Null")]
  | .array items => tagged "Array" (.arr (values items))
  | .record fields => tagged "Record" (.arr (entries fields))
  | .instant iso => tagged "Instant" (.str iso)
  | .plainDate iso => tagged "PlainDate" (.str iso)
  | .zoned iso zone =>
    .obj [("t", .str "ZonedDateTime"), ("v", .str iso), ("tz", .str zone)]
  | .wordRef r => tagged "WordRef" (.str r.name)
  | .moduleRef r => tagged "ModuleRef" (.str r.name)
  | .variableRef r => tagged "VariableRef" (.str r.name)
  | .options _ fields => tagged "Options" (.arr (entries fields))

/-- `Inspect.value` on the items of an array. -/
def values : List Val → List Json
  | [] => []
  | v :: vs => value v :: values vs

/-- The fields of a record as pairs of key and value. -/
def entries : List (String × Val) → List Json
  | [] => []
  | (k, v) :: fields => .arr [.str k, value v] :: entries fields
end

mutual
/-- Plain data with tags; of a date only that it is one. -/
def plain : Plain → Json
  | .null => .arr [.str "null"]
  | .bool b => .arr [.str "bool", .bool b]
  | .num x => .arr [.str "num", .str (numberText x)]
  | .big n => .arr [.str "big", .str (toString n)]
  | .str s => .arr [.str "str", .str s]
  | .date _ => .arr [.str "date"]
  | .list xs => .arr [.str "arr", .arr (plainItems xs)]
  | .object fields => .arr [.str "obj", .arr (plainFields fields)]

/-- `Inspect.plain` on the items of a list. -/
def plainItems : List Plain → List Json
  | [] => []
  | x :: xs => plain x :: plainItems xs

/-- The fields of an object as pairs of key and plain data. -/
def plainFields : List (String × Plain) → List Json
  | [] => []
  | (k, x) :: fields => .arr [.str k, plain x] :: plainFields fields
end

/-- The values of a stack, deepest first. -/
def stack (vs : List Val) : Json := .arr (values vs)

/-- A location as a list of its parts. -/
def location (l : Location) : Json :=
  .arr [text? l.source, Json.int l.line, Json.int l.column, Json.int l.startPos, Json.int l.endPos]

end Wordstack.Inspect
