import Wordstack.Value.Basic

/-!
# Equality of values

- **Equality** (`Val.equal`): structural. An integer is never equal to a floating point number,
  not-a-number is equal to itself, the two zeros are equal, records need the same keys in the same
  order, and in-process values the same identity.
- **Copies** (`Val.copy`): containers are built anew, everything else is shared.
-/

namespace Wordstack

namespace Val

mutual
/-- Structural equality. -/
def equal : Val → Val → Bool
  | int a, int b => a == b
  | float a, float b => a.eq b || (a.isNaN && b.isNaN)
  | bool a, bool b => a == b
  | str a, str b => a == b
  | null, null => true
  | array a, array b => equalItems a b
  | record a, record b => equalFields a b
  | instant a, instant b => a == b
  | plainDate a, plainDate b => a == b
  | zoned a z, zoned b z' => a == b && z == z'
  | wordRef a, wordRef b => a.id == b.id
  | moduleRef a, moduleRef b => a.id == b.id
  | variableRef a, variableRef b => a.id == b.id
  | options a _, options b _ => a == b
  | _, _ => false

/-- Equality of items one by one. -/
def equalItems : List Val → List Val → Bool
  | [], [] => true
  | a :: as, b :: bs => equal a b && equalItems as bs
  | _, _ => false

/-- Equality of fields one by one, keys included. -/
def equalFields : List (String × Val) → List (String × Val) → Bool
  | [], [] => true
  | (k, a) :: as, (k', b) :: bs => k == k' && equal a b && equalFields as bs
  | _, _ => false
end

mutual
/-- A copy whose containers are built anew. -/
def copy : Val → Val
  | array items => array (copyItems items)
  | record fields => record (copyFields fields)
  | v => v

/-- The copies of items. -/
def copyItems : List Val → List Val
  | [] => []
  | v :: vs => copy v :: copyItems vs

/-- The copies of the values of fields. -/
def copyFields : List (String × Val) → List (String × Val)
  | [] => []
  | (k, v) :: vs => (k, copy v) :: copyFields vs
end

/-- Whether a copy is the value itself: only containers are built anew. -/
def copiesToItself : Val → Bool
  | array _ | record _ => false
  | _ => true

end Val

end Wordstack
