import Wordstack.Value.Basic
import Wordstack.Fault.Basic
import Wordstack.Calendar.Timestamp

/-!
# Plain data

Word implementations may work with plain data: null, booleans, numbers, large integers, texts,
points in time, lists and objects.

- **To plain data** (`Val.toPlain`): integers that every number can tell apart become numbers,
  larger ones stay integers; times and dates become their text.
- **From plain data** (`Val.ofPlain`): integral numbers become integers.
- **Objects** list keys that are array indices first. The key `__proto__` names no entry.
-/

namespace Wordstack

/-- Plain data. -/
inductive Plain where
  | null
  | bool (b : Bool)
  | num (x : Binary64)
  | big (n : Int)
  | str (s : String)
  /-- A point in time, if it is a valid one. -/
  | date (timestamp : Option Int)
  | list (items : List Plain)
  | object (fields : List (String × Plain))

instance : Inhabited Plain := ⟨.null⟩

/-- The fields of an object as they are listed. -/
def Plain.listed {α : Type} (fields : List (String × α)) : List (String × α) :=
  indexedFirst (Json.distinctFields (fields.filter fun e => e.1 != "__proto__"))

namespace Val

mutual
/-- The value as plain data. In-process values have no such form. -/
def toPlain : Val → Except Fault Plain
  | int n => .ok (if n.natAbs ≤ Binary64.safeLimit then .num (Binary64.ofInt n) else .big n)
  | float x => .ok (.num x)
  | bool b => .ok (.bool b)
  | str s => .ok (.str s)
  | null => .ok .null
  | array items => return .list (← toPlainItems items)
  | record fields => return .object (Plain.listed (← toPlainFields fields))
  | instant iso => .ok (.str iso)
  | plainDate iso => .ok (.str iso)
  | zoned iso _ => .ok (.str iso)
  | wordRef _ => noPlain "WordRef"
  | moduleRef _ => noPlain "ModuleRef"
  | variableRef _ => noPlain "VariableRef"
  | options _ _ => noPlain "Options"
where
  noPlain (kind : String) : Except Fault Plain :=
    .error (.typeError ("Cannot convert " ++ kind ++ " to a host value"))

/-- `toPlain` of items in order. -/
def toPlainItems : List Val → Except Fault (List Plain)
  | [] => .ok []
  | v :: vs => return (← toPlain v) :: (← toPlainItems vs)

/-- `toPlain` of the values of fields in order. -/
def toPlainFields : List (String × Val) → Except Fault (List (String × Plain))
  | [] => .ok []
  | (k, v) :: vs => return (k, ← toPlain v) :: (← toPlainFields vs)
end

mutual
/-- The value of plain data. A point in time that is not valid has none. -/
def ofPlain : Plain → Except Fault Val
  | .null => .ok .null
  | .bool b => .ok (.bool b)
  | .num x => .ok (match x.toInt? with
    | some n => .int n
    | none => .float x)
  | .big n => .ok (.int n)
  | .str s => .ok (.str s)
  | .date (some t) => .ok (.instant (Calendar.timestampText t))
  | .date none => .error (.host "RangeError" "Invalid time value")
  | .list items => return .array (← ofPlainItems items)
  | .object fields => return .record (← ofPlainFields fields)

/-- `ofPlain` of items in order. -/
def ofPlainItems : List Plain → Except Fault (List Val)
  | [] => .ok []
  | x :: xs => return (← ofPlain x) :: (← ofPlainItems xs)

/-- `ofPlain` of the values of fields in order. -/
def ofPlainFields : List (String × Plain) → Except Fault (List (String × Val))
  | [] => .ok []
  | (k, x) :: xs => return (k, ← ofPlain x) :: (← ofPlainFields xs)
end

end Val

end Wordstack
