import Mathlib.Data.List.Nodup
import Mathlib.Tactic.Common
import Wordstack.Value.Equal
import Wordstack.Wire.Decode

/-!
# Decoding what was sent as text

A text of JSON loses the sign of zero, and decoding loses nothing beyond that.

- **Kinds** (`Val.sameKinds`): two values have the same kind at every node.
- **Signs of zeros** (`Val.unsigned`): the value with the positive zero for either zero. Values with
  the same one are equal, of the same kinds (`Val.equal_of_unsigned_eq`).
- **Fields** (`distinctFields_map`, `distinctFields_of_nodup`): the fields with each key once.
- **Texts** (`sent_sent`): a text that is sent again loses nothing.
- **Decoding** (`decode_sent`): the value decoded after sending is the value decoded before, with
  the positive zero for either zero; faults are the same, paths included.
-/

namespace Wordstack

/-! ## Values without signs of zeros -/

namespace Val

mutual
/-- Whether two values have the same kind at every node. -/
def sameKinds : Val → Val → Bool
  | array a, array b => sameKindsItems a b
  | record a, record b => sameKindsFields a b
  | a, b => a.kindName == b.kindName

/-- `Val.sameKinds` of items one by one. -/
def sameKindsItems : List Val → List Val → Bool
  | [], [] => true
  | a :: as, b :: bs => sameKinds a b && sameKindsItems as bs
  | _, _ => false

/-- `Val.sameKinds` of the values of fields one by one. -/
def sameKindsFields : List (String × Val) → List (String × Val) → Bool
  | [], [] => true
  | (_, a) :: as, (_, b) :: bs => sameKinds a b && sameKindsFields as bs
  | _, _ => false
end

/-- The number, with the positive zero for either zero. -/
def unsignedFloat (x : Binary64) : Binary64 :=
  if x.isNegativeZero then Binary64.zero false else x

mutual
/-- The value, with the positive zero for either zero at every node. -/
def unsigned : Val → Val
  | float x => float (unsignedFloat x)
  | array items => array (unsignedItems items)
  | record fields => record (unsignedFields fields)
  | v => v

/-- `Val.unsigned` on items. -/
def unsignedItems : List Val → List Val
  | [] => []
  | v :: vs => unsigned v :: unsignedItems vs

/-- `Val.unsigned` on the values of fields. -/
def unsignedFields : List (String × Val) → List (String × Val)
  | [] => []
  | (k, v) :: vs => (k, unsigned v) :: unsignedFields vs
end

end Val

theorem Binary64.isZero_of_isNegativeZero {x : Binary64} (h : x.isNegativeZero = true) :
    x.isZero = true := by
  cases x with
  | finite n m k hc => cases n <;> simp_all [isNegativeZero, isZero]
  | _ => cases h

theorem Binary64.unsignedFloat_of_isZero {x : Binary64} (h : x.isZero = true) :
    Val.unsignedFloat x = zero false := by
  cases x with
  | finite n m k hc =>
    obtain rfl : m = 0 := by simpa [isZero] using h
    obtain rfl : k = 0 := hc.2.2.resolve_right (by decide)
    cases n <;> simp [Val.unsignedFloat, isNegativeZero, zero]
  | _ => cases h

/-- A number that only the sign of zero tells from another one is equal to it. -/
theorem Binary64.eq_of_unsigned_eq {x y : Binary64}
    (h : Val.unsignedFloat x = Val.unsignedFloat y) :
    (x.eq y || (x.isNaN && y.isNaN)) = true := by
  have of_isZero : ∀ {z w : Binary64}, z.isZero = true → w.isZero = true → z.eq w = true := by
    intro z w hz hw
    cases z <;> cases w <;> simp_all [eq, isZero]
  unfold Val.unsignedFloat at h
  split at h
  case isTrue hx =>
    split at h
    case isTrue hy =>
      simp [of_isZero (isZero_of_isNegativeZero hx) (isZero_of_isNegativeZero hy)]
    case isFalse => subst h; simp [of_isZero (isZero_of_isNegativeZero hx) (w := zero false) rfl]
  case isFalse =>
    split at h
    case isTrue hy => subst h; simp [of_isZero (z := zero false) rfl (isZero_of_isNegativeZero hy)]
    case isFalse => subst h; cases x <;> simp [eq, isNaN]

/-- The sign of zero makes no difference to the integer that a number stands for. -/
theorem Binary64.toSafeInt?_unsigned (x : Binary64) :
    (Val.unsignedFloat x).toSafeInt? = x.toSafeInt? := by
  unfold Val.unsignedFloat
  split
  case isTrue hx =>
    cases x with
    | finite n m k hc =>
      cases n <;> simp [isNegativeZero] at hx
      have hunits : (zero false).units? = (finite true m k hc).units? := by
        simp only [units?, zero, hx, Nat.zero_mul]
        rfl
      rw [toSafeInt?, toSafeInt?, toInt?, toInt?, hunits]
    | _ => simp [isNegativeZero] at hx
  case isFalse => rfl

namespace Val

mutual
/-- Serializable values that only signs of zeros tell apart are equal, of the same kinds. -/
theorem equal_of_unsigned_eq {v w : Val} (hs : v.isSerializable = true)
    (h : v.unsigned = w.unsigned) : v.equal w = true ∧ v.sameKinds w = true := by
  cases v with
  | float x =>
    cases w <;> simp only [unsigned, reduceCtorEq, float.injEq] at h
    exact ⟨by rw [equal]; exact Binary64.eq_of_unsigned_eq h, by simp [sameKinds, kindName]⟩
  | array a =>
    cases w <;> simp only [unsigned, reduceCtorEq, array.injEq] at h
    rw [isSerializable] at hs
    simpa only [equal, sameKinds] using equalItems_of_unsigned_eq hs h
  | record a =>
    cases w <;> simp only [unsigned, reduceCtorEq, record.injEq] at h
    rw [isSerializable] at hs
    simpa only [equal, sameKinds] using equalFields_of_unsigned_eq hs h
  | wordRef | moduleRef | variableRef | options => simp [isSerializable] at hs
  | _ => cases w <;> simp_all [unsigned, equal, sameKinds, kindName]

theorem equalItems_of_unsigned_eq {vs ws : List Val} (hs : areSerializable vs = true)
    (h : unsignedItems vs = unsignedItems ws) :
    equalItems vs ws = true ∧ sameKindsItems vs ws = true := by
  match vs, ws with
  | [], [] => simp [equalItems, sameKindsItems]
  | [], _ :: _ => simp [unsignedItems] at h
  | _ :: _, [] => simp [unsignedItems] at h
  | v :: vs, w :: ws =>
    simp only [unsignedItems, List.cons.injEq] at h
    rw [areSerializable, Bool.and_eq_true] at hs
    have head := equal_of_unsigned_eq hs.1 h.1
    have tail := equalItems_of_unsigned_eq hs.2 h.2
    simp [equalItems, sameKindsItems, head, tail]

theorem equalFields_of_unsigned_eq {vs ws : List (String × Val)}
    (hs : fieldsSerializable vs = true) (h : unsignedFields vs = unsignedFields ws) :
    equalFields vs ws = true ∧ sameKindsFields vs ws = true := by
  match vs, ws with
  | [], [] => simp [equalFields, sameKindsFields]
  | [], (_, _) :: _ => simp [unsignedFields] at h
  | (_, _) :: _, [] => simp [unsignedFields] at h
  | (k, v) :: vs, (k', w) :: ws =>
    simp only [unsignedFields, List.cons.injEq, Prod.mk.injEq] at h
    rw [fieldsSerializable, Bool.and_eq_true] at hs
    have head := equal_of_unsigned_eq hs.1 h.1.2
    have tail := equalFields_of_unsigned_eq hs.2 h.2
    simp [equalFields, sameKindsFields, h.1.1, head, tail]
end

theorem unsignedFields_eq_map (fields : List (String × Val)) :
    unsignedFields fields = fields.map fun kv => (kv.1, kv.2.unsigned) := by
  induction fields with
  | nil => rfl
  | cons kv fields ih => simp [unsignedFields, ih]

end Val

/-! ## Texts -/

namespace Json

/-- Setting a key goes through a change of all values. -/
theorem setField_map {α β : Type} (f : α → β) (fields : List (String × α)) (key : String)
    (value : α) :
    setField (fields.map fun kv => (kv.1, f kv.2)) key (f value) =
      (setField fields key value).map fun kv => (kv.1, f kv.2) := by
  induction fields with
  | nil => rfl
  | cons kv fields ih =>
    simp only [List.map_cons, setField]
    split
    · rfl
    · simp [ih]

theorem distinctFields_map {α β : Type} (f : α → β) (fields : List (String × α)) :
    distinctFields (fields.map fun kv => (kv.1, f kv.2)) =
      (distinctFields fields).map fun kv => (kv.1, f kv.2) := by
  have general : ∀ acc : List (String × α),
      (fields.map fun kv => (kv.1, f kv.2)).foldl (fun acc kv => setField acc kv.1 kv.2)
          (acc.map fun kv => (kv.1, f kv.2)) =
        (fields.foldl (fun acc kv => setField acc kv.1 kv.2) acc).map
          fun kv => (kv.1, f kv.2) := by
    induction fields with
    | nil => intro acc; rfl
    | cons kv fields ih =>
      intro acc
      simp only [List.map_cons, List.foldl_cons, setField_map, ih]
  exact general []

/-- A key that is not there is added at the end. -/
theorem setField_of_notMem {α : Type} {fields : List (String × α)} {key : String} (value : α)
    (h : key ∉ fields.map (·.1)) : setField fields key value = fields ++ [(key, value)] := by
  induction fields with
  | nil => rfl
  | cons kv fields ih =>
    simp only [List.map_cons, List.mem_cons, not_or] at h
    have hk : (kv.1 == key) = false := by simpa using Ne.symm h.1
    simp [setField, hk, ih h.2]

/-- Fields whose keys stand once each are left as they are. -/
theorem distinctFields_of_nodup {α : Type} {fields : List (String × α)}
    (h : (fields.map (·.1)).Nodup) : distinctFields fields = fields := by
  have general : ∀ acc : List (String × α), ((acc ++ fields).map (·.1)).Nodup →
      fields.foldl (fun acc kv => setField acc kv.1 kv.2) acc = acc ++ fields := by
    clear h
    induction fields with
    | nil => intro acc _; simp
    | cons kv fields ih =>
      intro acc h
      have hk : kv.1 ∉ acc.map (·.1) := by
        simp only [List.map_append, List.map_cons] at h
        intro hm
        exact List.disjoint_of_nodup_append h hm (List.mem_cons_self ..)
      rw [List.foldl_cons, setField_of_notMem _ hk, ih _ (by simpa using h)]
      simp
  exact general [] (by simpa using h)

theorem lookup_sentFields (key : String) (fields : List (String × Json)) :
    (sentFields fields).lookup key = (fields.lookup key).map sent := by
  induction fields with
  | nil => rfl
  | cons kv fields ih =>
    obtain ⟨k, x⟩ := kv
    simp only [sentFields, List.lookup_cons]
    split <;> simp [ih]

mutual
/-- A value that has arrived loses nothing when it is sent again. -/
theorem sent_sent (j : Json) : j.sent.sent = j.sent := by
  match j with
  | .num x =>
    rw [sent, sent]
    split <;> simp_all [Binary64.zero, Binary64.isNegativeZero]
  | .arr items => rw [sent, sent, sentItems_sentItems]
  | .obj fields => rw [sent, sent, sentFields_sentFields]
  | .null | .bool _ | .str _ => rfl

theorem sentItems_sentItems (items : List Json) :
    sentItems (sentItems items) = sentItems items := by
  match items with
  | [] => rfl
  | x :: xs => rw [sentItems, sentItems, sent_sent x, sentItems_sentItems xs]

theorem sentFields_sentFields (fields : List (String × Json)) :
    sentFields (sentFields fields) = sentFields fields := by
  match fields with
  | [] => rfl
  | (k, x) :: xs => rw [sentFields, sentFields, sent_sent x, sentFields_sentFields xs]
end

theorem sentFields_length (fields : List (String × Json)) :
    (sentFields fields).length = fields.length := by
  induction fields with
  | nil => rfl
  | cons kv fields ih => simp [sentFields, ih]

end Json

namespace Wire

theorem expectString_sent (path : String) (x : Option Json) :
    expectString path (x.map Json.sent) = expectString path x := by
  cases x with
  | none => rfl
  | some x => cases x <;> rfl

theorem decodeInt_sent (path : String) (x : Json) :
    decodeInt path x.sent = (decodeInt path x).map Val.unsigned := by
  cases x with
  | num n =>
    have h := Binary64.toSafeInt?_unsigned n
    rw [Val.unsignedFloat] at h
    rw [Json.sent, decodeInt, h, decodeInt]
    cases n.toSafeInt? <;> rfl
  | str s =>
    simp only [Json.sent, decodeInt]
    split <;> rfl
  | _ => rfl

theorem decodeFloat_sent (path : String) (x : Json) :
    decodeFloat path x.sent = (decodeFloat path x).map Val.unsigned := by
  cases x with
  | str s =>
    simp only [Json.sent, decodeFloat]
    split_ifs <;> rfl
  | _ => rfl

theorem decodeInstant_sent (path : String) (x : Json) :
    decodeInstant path x.sent = (decodeInstant path x).map Val.unsigned := by
  cases x with
  | obj fields =>
    simp only [Json.sent, decodeInstant, expectObject, Json.lookup_sentFields, expectString_sent,
      bind, Except.bind]
    cases expectString (path ++ ".instant_value.iso8601") (fields.lookup "iso8601") with
    | error f => rfl
    | ok iso => dsimp only; split <;> rfl
  | _ => rfl

theorem decodeDate_sent (path : String) (x : Json) :
    decodeDate path x.sent = (decodeDate path x).map Val.unsigned := by
  cases x with
  | obj fields =>
    simp only [Json.sent, decodeDate, expectObject, Json.lookup_sentFields, expectString_sent,
      bind, Except.bind]
    cases expectString (path ++ ".plain_date_value.iso8601_date")
        (fields.lookup "iso8601_date") with
    | error f => rfl
    | ok iso => dsimp only; split <;> rfl
  | _ => rfl

theorem decodeZoned_sent (path : String) (x : Json) :
    decodeZoned path x.sent = (decodeZoned path x).map Val.unsigned := by
  cases x with
  | obj fields =>
    simp only [Json.sent, decodeZoned, expectObject, Json.lookup_sentFields, expectString_sent,
      bind, Except.bind]
    cases expectString (path ++ ".zoned_datetime_value" ++ ".iso8601")
        (fields.lookup "iso8601") with
    | error f => rfl
    | ok iso =>
      cases expectString (path ++ ".zoned_datetime_value" ++ ".timezone")
          (fields.lookup "timezone") <;> rfl
  | _ => rfl
/-! Equations of the readers with the choice by the kind of the body left in place. -/

theorem decodeItemsOf_cons (path k : String) (x : Json) (rest : List (String × Json)) :
    decodeItemsOf path ((k, x) :: rest) =
      if k == "items" then
        match x with
        | .null => .ok []
        | .arr items => decodeItems path 0 items
        | _ => expected path "an array"
      else decodeItemsOf path rest := by
  cases x <;> rfl

theorem decodeFieldsOf_cons (path k : String) (x : Json) (rest : List (String × Json)) :
    decodeFieldsOf path ((k, x) :: rest) =
      if k == "fields" then
        match x with
        | .null => .ok []
        | .arr items => decodeEntries path 0 items
        | _ => expected path "an array"
      else decodeFieldsOf path rest := by
  cases x <;> rfl

theorem decode_single (path key : String) (body : Json) :
    decode path (.obj [(key, body)]) =
      if key == "int_value" then decodeInt path body
      else if key == "float_value" then decodeFloat path body
      else if key == "bool_value" then
        match body with
        | .bool b => .ok (.bool b)
        | _ => expected (path ++ ".bool_value") "a boolean"
      else if key == "string_value" then
        (expectString (path ++ ".string_value") (some body)).map .str
      else if key == "null_value" then .ok .null
      else if key == "array_value" then
        match body with
        | .obj fields => (decodeItemsOf (path ++ ".array_value.items") fields).map .array
        | _ => expected (path ++ ".array_value") "an object"
      else if key == "record_value" then
        match body with
        | .obj fields => (decodeFieldsOf (path ++ ".record_value.fields") fields).map .ofFields
        | _ => expected (path ++ ".record_value") "an object"
      else if key == "instant_value" then decodeInstant path body
      else if key == "plain_date_value" then decodeDate path body
      else if key == "zoned_datetime_value" then decodeZoned path body
      else .error (.wireFormat (path ++ ": unknown value field '" ++ key ++ "'")) := by
  cases body <;> rfl

/-- The outcomes of two choices by one condition are related when those of the branches are. -/
theorem ite_map {α β : Type} {c : Prop} [Decidable c] {f : α → β} {x y : Except Fault β}
    {x' y' : Except Fault α} (hx : x = x'.map f) (hy : y = y'.map f) :
    (if c then x else y) = (if c then x' else y').map f := by
  split
  · exact hx
  · exact hy

mutual
/-- A text of JSON loses the sign of zero, and the value decoded from it no more than that. -/
theorem decode_sent (path : String) (j : Json) :
    decode path j.sent = (decode path j).map Val.unsigned := by
  match j with
  | .obj [(key, body)] =>
    rw [Json.sent, Json.sentFields, Json.sentFields, decode_single, decode_single]
    -- one kind of value after the other, in the order in which the keys are tried
    refine ite_map (decodeInt_sent path body) ?_
    refine ite_map (decodeFloat_sent path body) ?_
    refine ite_map (by cases body <;> rfl) ?_
    refine ite_map (by cases body <;> rfl) ?_
    refine ite_map rfl ?_
    refine ite_map ?_ ?_
    · match body with
      | .obj fields =>
        rw [Json.sent]
        dsimp only
        rw [decodeItemsOf_sent]
        cases decodeItemsOf (path ++ ".array_value.items") fields <;> rfl
      | .null | .bool _ | .num _ | .str _ | .arr _ => rfl
    refine ite_map ?_ ?_
    · match body with
      | .obj fields =>
        rw [Json.sent]
        dsimp only
        rw [decodeFieldsOf_sent]
        cases decodeFieldsOf (path ++ ".record_value.fields") fields with
        | error f => rfl
        | ok fields =>
          simp only [Except.map, Val.ofFields, Val.unsigned, Val.unsignedFields_eq_map,
            Json.distinctFields_map]
      | .null | .bool _ | .num _ | .str _ | .arr _ => rfl
    refine ite_map (decodeInstant_sent path body) ?_
    refine ite_map (decodeDate_sent path body) ?_
    exact ite_map (decodeZoned_sent path body) rfl
  | .obj [] => rfl
  | .obj (_ :: _ :: rest) =>
    simp [Json.sent, Json.sentFields, decode, Except.map, Json.sentFields_length]
  | .null | .bool _ | .num _ | .str _ | .arr _ => rfl

theorem decodeItemsOf_sent (path : String) (fields : List (String × Json)) :
    decodeItemsOf path (Json.sentFields fields) =
      (decodeItemsOf path fields).map Val.unsignedItems := by
  match fields with
  | [] => rfl
  | (k, x) :: rest =>
    rw [Json.sentFields, decodeItemsOf_cons, decodeItemsOf_cons]
    refine ite_map ?_ (decodeItemsOf_sent path rest)
    match x with
    | .arr items => exact decodeItems_sent path 0 items
    | .null | .bool _ | .num _ | .str _ | .obj _ => rfl

theorem decodeItems_sent (path : String) (i : Nat) (items : List Json) :
    decodeItems path i (Json.sentItems items) =
      (decodeItems path i items).map Val.unsignedItems := by
  match items with
  | [] => rfl
  | x :: xs =>
    simp only [Json.sentItems, decodeItems, decode_sent (indexed path i) x,
      decodeItems_sent path (i + 1) xs]
    cases decode (indexed path i) x with
    | error f => rfl
    | ok v => cases decodeItems path (i + 1) xs <;> rfl

theorem decodeFieldsOf_sent (path : String) (fields : List (String × Json)) :
    decodeFieldsOf path (Json.sentFields fields) =
      (decodeFieldsOf path fields).map Val.unsignedFields := by
  match fields with
  | [] => rfl
  | (k, x) :: rest =>
    rw [Json.sentFields, decodeFieldsOf_cons, decodeFieldsOf_cons]
    refine ite_map ?_ (decodeFieldsOf_sent path rest)
    match x with
    | .arr items => exact decodeEntries_sent path 0 items
    | .null | .bool _ | .num _ | .str _ | .obj _ => rfl

theorem decodeEntries_sent (path : String) (i : Nat) (items : List Json) :
    decodeEntries path i (Json.sentItems items) =
      (decodeEntries path i items).map Val.unsignedFields := by
  match items with
  | [] => rfl
  | .obj fields :: xs =>
    simp only [Json.sentItems, Json.sent, decodeEntries, Json.lookup_sentFields,
      expectString_sent, decodeValueOf_sent (indexed path i ++ ".value") fields,
      decodeEntries_sent path (i + 1) xs]
    cases expectString (indexed path i ++ ".key") (fields.lookup "key") with
    | error f => rfl
    | ok key =>
      cases decodeValueOf (indexed path i ++ ".value") fields with
      | error f => rfl
      | ok v => cases decodeEntries path (i + 1) xs <;> rfl
  | .null :: _ | .bool _ :: _ | .num _ :: _ | .str _ :: _ | .arr _ :: _ => rfl

theorem decodeValueOf_sent (path : String) (fields : List (String × Json)) :
    decodeValueOf path (Json.sentFields fields) =
      (decodeValueOf path fields).map Val.unsigned := by
  match fields with
  | [] => rfl
  | (k, x) :: rest =>
    simp only [Json.sentFields, decodeValueOf]
    exact ite_map (decode_sent path x) (decodeValueOf_sent path rest)
end

end Wire

end Wordstack
