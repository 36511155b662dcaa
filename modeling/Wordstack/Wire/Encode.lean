import Wordstack.Value.Basic
import Wordstack.Fault.Basic

/-!
# Values on the wire

Every value travels as an object with one field, named for its kind. Integers are decimal texts, so
they keep all digits; the floating point numbers that JSON has no text for are named.

- **Encoding** (`Wire.encode`, `Wire.encodeStack`): in-process values cannot be sent.
-/

namespace Wordstack

namespace Wire

/-- A floating point number on the wire. -/
def encodeFloat : Binary64 → Json
  | .nan => .str "NaN"
  | .infinite negative => .str (if negative then "-Infinity" else "Infinity")
  | x => .num x

/-- The fault for a value that exists only in one process. -/
def unsendable (kind : String) : Fault := .wireFormat ("Cannot serialize " ++ kind ++ " value")

mutual
/-- A value on the wire. -/
def encode : Val → Except Fault Json
  | .int n => .ok (.obj [("int_value", .str (toString n))])
  | .float x => .ok (.obj [("float_value", encodeFloat x)])
  | .bool b => .ok (.obj [("bool_value", .bool b)])
  | .str s => .ok (.obj [("string_value", .str s)])
  | .null => .ok (.obj [("null_value", .obj [])])
  | .array items => do
    let xs ← encodeStack items
    return .obj [("array_value", .obj [("items", .arr xs)])]
  | .record fields => do
    let xs ← encodeFields fields
    return .obj [("record_value", .obj [("fields", .arr xs)])]
  | .instant iso => .ok (.obj [("instant_value", .obj [("iso8601", .str iso)])])
  | .plainDate iso => .ok (.obj [("plain_date_value", .obj [("iso8601_date", .str iso)])])
  | .zoned iso zone =>
    .ok (.obj [("zoned_datetime_value", .obj [("iso8601", .str iso), ("timezone", .str zone)])])
  | .wordRef _ => .error (unsendable "WordRef")
  | .moduleRef _ => .error (unsendable "ModuleRef")
  | .variableRef _ => .error (unsendable "VariableRef")
  | .options _ _ => .error (unsendable "Options")

/-- Values on the wire, in order. -/
def encodeStack : List Val → Except Fault (List Json)
  | [] => .ok []
  | v :: vs => do
    let x ← encode v
    let xs ← encodeStack vs
    return x :: xs

/-- The fields of a record on the wire, in order. -/
def encodeFields : List (String × Val) → Except Fault (List Json)
  | [] => .ok []
  | (k, v) :: vs => do
    let x ← encode v
    let xs ← encodeFields vs
    return .obj [("key", .str k), ("value", x)] :: xs
end

end Wire

end Wordstack
