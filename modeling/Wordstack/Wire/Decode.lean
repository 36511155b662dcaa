import Wordstack.Value.Basic
import Wordstack.Fault.Basic
import Wordstack.Calendar.Timestamp

/-!
# Values from the wire

Decoding accepts exactly the wire form of values and names the path of the first part that does not
have it, in the order of the text.

- **Values** (`Wire.decode`): an object with exactly one field, named for the kind of the value.
  The items of an array and the fields of a record may be missing or null.
- **Stacks** (`Wire.decodeStack`): an array of values; a missing one is empty.
-/

namespace Wordstack

namespace Wire

/-- What was expected at a path. -/
def expected {α : Type} (path what : String) : Except Fault α :=
  .error (.wireFormat (path ++ ": expected " ++ what))

/-- The fields of an object. -/
def expectObject (path : String) : Json → Except Fault (List (String × Json))
  | .obj fields => .ok fields
  | _ => expected path "an object"

/-- The text of a string. -/
def expectString (path : String) : Option Json → Except Fault String
  | some (.str s) => .ok s
  | _ => expected path "a string"

/-- Whether the characters are a decimal integer, leading zeros allowed. -/
def isInteger (cs : List Char) : Bool :=
  Text.allDigits (if cs.head? == some '-' then cs.drop 1 else cs)

/-- An integer: its decimal text, or a number that is a safe integer. -/
def decodeInt (path : String) (x : Json) : Except Fault Val :=
  match x with
  | .str s =>
    if isInteger s.toList then .ok (.int (Text.toInt s.toList))
    else expected (path ++ ".int_value") "an integer"
  | .num n =>
    match n.toSafeInt? with
    | some i => .ok (.int i)
    | none => expected (path ++ ".int_value") "an integer"
  | _ => expected (path ++ ".int_value") "an integer"

/-- A floating point number: a number, or one of the three names. -/
def decodeFloat (path : String) (x : Json) : Except Fault Val :=
  match x with
  | .num n => .ok (.float n)
  | .str s =>
    if s == "NaN" then .ok (.float .nan)
    else if s == "Infinity" then .ok (.float (.infinite false))
    else if s == "-Infinity" then .ok (.float (.infinite true))
    else expected (path ++ ".float_value") "a number"
  | _ => expected (path ++ ".float_value") "a number"

/-- A point in time whose text is a timestamp. -/
def decodeInstant (path : String) (x : Json) : Except Fault Val := do
  let fields ← expectObject (path ++ ".instant_value") x
  let iso ← expectString (path ++ ".instant_value.iso8601") (fields.lookup "iso8601")
  if (Calendar.readTimestamp iso).isSome then return .instant iso
  else .error (.wireFormat (path ++ ".instant_value: invalid timestamp '" ++ iso ++ "'"))

/-- Whether a text is four, two and two digits with dashes between them. -/
def isDateText (s : String) : Bool :=
  match s.toList with
  | [a, b, c, d, x, e, f, y, g, h] =>
    [a, b, c, d, e, f, g, h].all Char.isDigit && x == '-' && y == '-'
  | _ => false

/-- A date in digits. -/
def decodeDate (path : String) (x : Json) : Except Fault Val := do
  let fields ← expectObject (path ++ ".plain_date_value") x
  let iso ← expectString (path ++ ".plain_date_value.iso8601_date") (fields.lookup "iso8601_date")
  if isDateText iso then return .plainDate iso
  else .error (.wireFormat (path ++ ".plain_date_value: invalid date '" ++ iso ++ "'"))

/-- A wall clock time and its zone. -/
def decodeZoned (path : String) (x : Json) : Except Fault Val := do
  let path := path ++ ".zoned_datetime_value"
  let fields ← expectObject path x
  let iso ← expectString (path ++ ".iso8601") (fields.lookup "iso8601")
  let zone ← expectString (path ++ ".timezone") (fields.lookup "timezone")
  return .zoned iso zone

/-- A path with an index. -/
def indexed (path : String) (i : Nat) : String := path ++ "[" ++ toString i ++ "]"

mutual
/-- The value of a wire form. -/
def decode (path : String) : Json → Except Fault Val
  | .obj [(key, body)] =>
    if key == "int_value" then decodeInt path body
    else if key == "float_value" then decodeFloat path body
    else if key == "bool_value" then
      match body with
      | .bool b => .ok (.bool b)
      | _ => expected (path ++ ".bool_value") "a boolean"
    else if key == "string_value" then
      (expectString (path ++ ".string_value") (some body)).map .str
    else if key == "null_value" then .ok .null
    else if key == "array_value" then
      match body with
      | .obj fields => (decodeItemsOf (path ++ ".array_value.items") fields).map .array
      | _ => expected (path ++ ".array_value") "an object"
    else if key == "record_value" then
      match body with
      | .obj fields => (decodeFieldsOf (path ++ ".record_value.fields") fields).map .ofFields
      | _ => expected (path ++ ".record_value") "an object"
    else if key == "instant_value" then decodeInstant path body
    else if key == "plain_date_value" then decodeDate path body
    else if key == "zoned_datetime_value" then decodeZoned path body
    else .error (.wireFormat (path ++ ": unknown value field '" ++ key ++ "'"))
  | .obj fields =>
    .error (.wireFormat
      (path ++ ": expected exactly one value field (got " ++ toString fields.length ++ ")"))
  | _ => expected path "an object"

/-- The values under `items`. -/
def decodeItemsOf (path : String) : List (String × Json) → Except Fault (List Val)
  | [] => .ok []
  | (k, x) :: rest =>
    if k == "items" then
      match x with
      | .null => .ok []
      | .arr items => decodeItems path 0 items
      | _ => expected path "an array"
    else decodeItemsOf path rest

/-- Values in order; `i` is the index of the first one. -/
def decodeItems (path : String) (i : Nat) : List Json → Except Fault (List Val)
  | [] => .ok []
  | x :: xs => do
    let v ← decode (indexed path i) x
    let vs ← decodeItems path (i + 1) xs
    return v :: vs

/-- The keys and values under `fields`. -/
def decodeFieldsOf (path : String) : List (String × Json) → Except Fault (List (String × Val))
  | [] => .ok []
  | (k, x) :: rest =>
    if k == "fields" then
      match x with
      | .null => .ok []
      | .arr items => decodeEntries path 0 items
      | _ => expected path "an array"
    else decodeFieldsOf path rest

/-- Keys and values in order; `i` is the index of the first one. -/
def decodeEntries (path : String) (i : Nat) : List Json → Except Fault (List (String × Val))
  | [] => .ok []
  | x :: xs =>
    match x with
    | .obj fields => do
      let key ← expectString (indexed path i ++ ".key") (fields.lookup "key")
      let v ← decodeValueOf (indexed path i ++ ".value") fields
      let rest ← decodeEntries path (i + 1) xs
      return (key, v) :: rest
    | _ => expected (indexed path i) "an object"

/-- The value under `value`. -/
def decodeValueOf (path : String) : List (String × Json) → Except Fault Val
  | [] => expected path "an object"
  | (k, x) :: rest => if k == "value" then decode path x else decodeValueOf path rest
end

/-- The values of a stack; a missing stack is empty. -/
def decodeStack (path : String) : Option Json → Except Fault (List Val)
  | none => .ok []
  | some (.arr items) => decodeItems path 0 items
  | some _ => expected path "an array"

end Wire

end Wordstack
