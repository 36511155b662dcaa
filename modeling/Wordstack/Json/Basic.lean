import Wordstack.Binary64.Basic

/-!
# JSON values

- **Values** (`Json`): objects keep the order of their fields; numbers are `Binary64`.
- **Fields** (`Json.Fields`): a key that is set again keeps its place and takes the new value.
- **Views** (`Json.field?`, `Json.str?`, …): what a value holds when it has the wanted shape.
-/

namespace Wordstack

/-- A JSON value. -/
inductive Json where
  | null
  | bool (b : Bool)
  | num (x : Binary64)
  | str (s : String)
  | arr (items : List Json)
  | obj (fields : List (String × Json))

namespace Json

instance : Inhabited Json := ⟨null⟩

/-- Sets a key: a present key keeps its place, a new one goes to the end. -/
def setField {α : Type} (fields : List (String × α)) (key : String) (value : α) :
    List (String × α) :=
  match fields with
  | [] => [(key, value)]
  | (k, v) :: rest => if k == key then (k, value) :: rest else (k, v) :: setField rest key value

/-- The fields in which each key stands once, at its first place and with its last value. -/
def distinctFields {α : Type} (fields : List (String × α)) : List (String × α) :=
  fields.foldl (fun acc kv => setField acc kv.1 kv.2) []

/-- The value of a key in an object. -/
def field? (key : String) : Json → Option Json
  | obj fields => fields.lookup key
  | _ => none

/-- The text of a string. -/
def str? : Json → Option String
  | str s => some s
  | _ => none

/-- The number of a number. -/
def num? : Json → Option Binary64
  | num x => some x
  | _ => none

/-- The items of an array. -/
def arr? : Json → Option (List Json)
  | arr items => some items
  | _ => none

/-- The fields of an object. -/
def obj? : Json → Option (List (String × Json))
  | obj fields => some fields
  | _ => none

/-- An object of the fields that are present. -/
def ofFields (fields : List (String × Option Json)) : Json :=
  obj (fields.filterMap fun kv => kv.2.map fun v => (kv.1, v))

/-- A whole number. -/
def int (i : Int) : Json := num (Binary64.ofInt i)

/-- An array of strings. -/
def strs (items : List String) : Json := arr (items.map str)

mutual
/-- The value as it arrives after being sent as text: the sign of zero is lost. -/
def sent : Json → Json
  | num x => num (if x.isNegativeZero then Binary64.zero false else x)
  | arr items => arr (sentItems items)
  | obj fields => obj (sentFields fields)
  | null => null
  | bool b => bool b
  | str s => str s

/-- `Json.sent` on the items of an array. -/
def sentItems : List Json → List Json
  | [] => []
  | x :: xs => sent x :: sentItems xs

/-- `Json.sent` on the fields of an object. -/
def sentFields : List (String × Json) → List (String × Json)
  | [] => []
  | (k, x) :: xs => (k, sent x) :: sentFields xs
end

end Json

/-- The array index that a key stands for: a decimal without a leading zero below `2^32 - 1`. -/
def indexKey? (key : String) : Option Nat :=
  let cs := key.toList
  if cs.isEmpty || cs.length > 10 || !cs.all Char.isDigit then none
  else if cs.length > 1 && cs.head? == some '0' then none
  else
    let n := cs.foldl (fun n c => 10 * n + (c.toNat - '0'.toNat)) 0
    if n < 4294967295 then some n else none

/-- Inserts a field before the first one with a larger index. -/
def insertByIndex {α : Type} (x : Nat × String × α) :
    List (Nat × String × α) → List (Nat × String × α)
  | [] => [x]
  | y :: ys => if x.1 < y.1 then x :: y :: ys else y :: insertByIndex x ys

/-- Fields in the order of plain objects: keys that are array indices first, ascending, then the
others as they stand. -/
def indexedFirst {α : Type} (fields : List (String × α)) : List (String × α) :=
  let indexed := fields.filterMap fun kv => (indexKey? kv.1).map fun n => (n, kv)
  let sorted := indexed.foldl (fun acc x => insertByIndex x acc) []
  sorted.map (·.2) ++ fields.filter fun kv => (indexKey? kv.1).isNone

end Wordstack
