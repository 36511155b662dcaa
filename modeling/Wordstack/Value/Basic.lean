import Wordstack.Json.Basic

/-!
# Values

Every operand on the stack is a value.

- **Serializable values**: integers of any size, floating point numbers, booleans, texts, null,
  arrays, records, and points in time, dates and wall clock times kept as ISO 8601 text.
- **In-process values**: references to a word, a module or a variable, and word options. Each has
  an identity, and two of them are equal when that is the same.
- **Records** (`Val.ofFields`): keys in insertion order; a key set again keeps its place.
- **Predicates** (`Val.isSerializable`, `Val.isTruthy`).
-/

namespace Wordstack

/-- A reference to something with an identity, and the name to show for it. -/
structure Ref where
  id : Nat
  name : String
deriving DecidableEq

/-- A value. -/
inductive Val where
  | int (n : Int)
  | float (x : Binary64)
  | bool (b : Bool)
  | str (s : String)
  | null
  | array (items : List Val)
  | record (fields : List (String × Val))
  | instant (iso : String)
  | plainDate (iso : String)
  | zoned (iso : String) (zone : String)
  | wordRef (ref : Ref)
  | moduleRef (ref : Ref)
  | variableRef (ref : Ref)
  | options (id : Nat) (entries : List (String × Val))

namespace Val

instance : Inhabited Val := ⟨null⟩

/-- The name of the kind of a value. -/
def kindName : Val → String
  | int _ => "Int"
  | float _ => "Float"
  | bool _ => "Bool"
  | str _ => "Str"
  | null => "Null"
  | array _ => "Array"
  | record _ => "Record"
  | instant _ => "Instant"
  | plainDate _ => "PlainDate"
  | zoned _ _ => "ZonedDateTime"
  | wordRef _ => "WordRef"
  | moduleRef _ => "ModuleRef"
  | variableRef _ => "VariableRef"
  | options _ _ => "Options"

/-- A record of the given fields: a repeated key keeps its first place and its last value. -/
def ofFields (fields : List (String × Val)) : Val := record (Json.distinctFields fields)

/-- Whether the value exists only inside one process. -/
def isInProcess : Val → Bool
  | wordRef _ | moduleRef _ | variableRef _ | options _ _ => true
  | _ => false

mutual
/-- Whether no part of the value is in-process. -/
def isSerializable : Val → Bool
  | wordRef _ | moduleRef _ | variableRef _ | options _ _ => false
  | array items => areSerializable items
  | record fields => fieldsSerializable fields
  | int _ | float _ | bool _ | str _ | null | instant _ | plainDate _ | zoned _ _ => true

/-- `isSerializable` of every item. -/
def areSerializable : List Val → Bool
  | [] => true
  | v :: vs => isSerializable v && areSerializable vs

/-- `isSerializable` of every field. -/
def fieldsSerializable : List (String × Val) → Bool
  | [] => true
  | (_, v) :: vs => isSerializable v && fieldsSerializable vs
end

/-- Null, false, zero, the empty text and the empty array are false, all other values true. -/
def isTruthy : Val → Bool
  | null => false
  | bool b => b
  | int n => n != 0
  | float x => !x.isZero
  | str s => !s.isEmpty
  | array items => !items.isEmpty
  | _ => true

end Val

end Wordstack
