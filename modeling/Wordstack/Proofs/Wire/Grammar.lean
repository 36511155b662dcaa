import Wordstack.Proofs.Wire.Decoded
import Wordstack.Wire.Request

/-!
# The grammar of requests

Which bodies are requests, said without the readers.

- **Values** (`Wire.IsValue`): an object with one field, named for a kind of value (`Wire.Kind`),
  and the body of that kind under it (`Wire.IsBody`).
- **Requests** (`Wire.IsRequest`): the fields that each method asks for. Other fields may be there,
  and listing the modules asks for nothing.
- **Readers** (`Wire.Judges`): a reader accepts exactly what is in the grammar, and all that it says
  of anything else is that the form is wrong (`Wire.judges_decode`, `Wire.judges_word`,
  `Wire.judges_sequence`, `Wire.judges_info`).
-/

namespace Wordstack

namespace Wire

/-! ## Values -/

/-- The kinds of values on the wire. -/
inductive Kind where
  | int
  | float
  | bool
  | string
  | null
  | array
  | record
  | instant
  | plainDate
  | zoned
deriving DecidableEq

/-- The field that holds a value of a kind. -/
def Kind.key : Kind → String
  | int => "int_value"
  | float => "float_value"
  | bool => "bool_value"
  | string => "string_value"
  | null => "null_value"
  | array => "array_value"
  | record => "record_value"
  | instant => "instant_value"
  | plainDate => "plain_date_value"
  | zoned => "zoned_datetime_value"

theorem Kind.key_inj {k l : Kind} (h : k.key = l.key) : k = l := by
  cases k <;> cases l <;> first | rfl | simp [key] at h

/-- A field that may be left out, also by a null. -/
def IsAbsent (x : Option Json) : Prop := x = none ∨ x = some .null

mutual
/-- The wire form of a value. -/
inductive IsValue : Json → Prop
  | field (kind : Kind) {body : Json} (h : IsBody kind body) : IsValue (.obj [(kind.key, body)])

/-- What stands under the field of a kind. -/
inductive IsBody : Kind → Json → Prop
  | intText {s : String} (h : isInteger s.toList = true) : IsBody .int (.str s)
  | intNumber {x : Binary64} {n : Int} (h : x.toSafeInt? = some n) : IsBody .int (.num x)
  | float (x : Binary64) : IsBody .float (.num x)
  | floatName {s : String} (h : s = "NaN" ∨ s = "Infinity" ∨ s = "-Infinity") :
    IsBody .float (.str s)
  | bool (b : Bool) : IsBody .bool (.bool b)
  | string (s : String) : IsBody .string (.str s)
  | null (x : Json) : IsBody .null x
  | noItems {fields : List (String × Json)} (h : IsAbsent (fields.lookup "items")) :
    IsBody .array (.obj fields)
  | items {fields : List (String × Json)} {xs : List Json}
    (h : fields.lookup "items" = some (.arr xs)) (hxs : ∀ x ∈ xs, IsValue x) :
    IsBody .array (.obj fields)
  | noFields {fields : List (String × Json)} (h : IsAbsent (fields.lookup "fields")) :
    IsBody .record (.obj fields)
  | fields {fields : List (String × Json)} {xs : List Json}
    (h : fields.lookup "fields" = some (.arr xs)) (hxs : ∀ x ∈ xs, IsEntry x) :
    IsBody .record (.obj fields)
  | instant {fields : List (String × Json)} {iso : String}
    (h : fields.lookup "iso8601" = some (.str iso))
    (hiso : (Calendar.readTimestamp iso).isSome = true) : IsBody .instant (.obj fields)
  | plainDate {fields : List (String × Json)} {iso : String}
    (h : fields.lookup "iso8601_date" = some (.str iso)) (hiso : isDateText iso = true) :
    IsBody .plainDate (.obj fields)
  | zoned {fields : List (String × Json)} {iso zone : String}
    (h : fields.lookup "iso8601" = some (.str iso))
    (hzone : fields.lookup "timezone" = some (.str zone)) : IsBody .zoned (.obj fields)

/-- A key with its value. -/
inductive IsEntry : Json → Prop
  | entry {fields : List (String × Json)} {key : String} {x : Json}
    (hkey : fields.lookup "key" = some (.str key)) (hx : fields.lookup "value" = some x)
    (h : IsValue x) : IsEntry (.obj fields)
end

theorem isValue_key_iff {kind : Kind} {body : Json} :
    IsValue (.obj [(kind.key, body)]) ↔ IsBody kind body := by
  constructor
  · intro h
    generalize hx : Json.obj [(kind.key, body)] = x at h
    cases h with
    | field other hbody =>
      simp only [Json.obj.injEq, List.cons.injEq, Prod.mk.injEq, and_true] at hx
      obtain ⟨hkey, rfl⟩ := hx
      obtain rfl := Kind.key_inj hkey
      exact hbody
  · exact .field kind

/-- The values under a field that may be left out. -/
def IsList (P : Json → Prop) (x : Option Json) : Prop :=
  IsAbsent x ∨ ∃ xs, x = some (.arr xs) ∧ ∀ y ∈ xs, P y

theorem isBody_array_iff {fields : List (String × Json)} :
    IsBody .array (.obj fields) ↔ IsList IsValue (fields.lookup "items") := by
  constructor
  · intro h
    cases h with
    | noItems h => exact .inl h
    | items h hxs => exact .inr ⟨_, h, hxs⟩
  · rintro (h | ⟨xs, h, hxs⟩)
    · exact .noItems h
    · exact .items h hxs

theorem isBody_record_iff {fields : List (String × Json)} :
    IsBody .record (.obj fields) ↔ IsList IsEntry (fields.lookup "fields") := by
  constructor
  · intro h
    cases h with
    | noFields h => exact .inl h
    | fields h hxs => exact .inr ⟨_, h, hxs⟩
  · rintro (h | ⟨xs, h, hxs⟩)
    · exact .noFields h
    · exact .fields h hxs

/-! ## Readers -/

/-- A reader that succeeds exactly if something holds, and otherwise says that the form is wrong. -/
inductive Judges {α : Type} (P : Prop) : Except Fault α → Prop
  | ok {a : α} (h : P) : Judges P (.ok a)
  | error {note : String} (h : ¬ P) : Judges P (.error (.wireFormat note))

namespace Judges

variable {α β : Type} {P Q : Prop} {r : Except Fault α}

theorem congr (h : Judges P r) (hPQ : P ↔ Q) : Judges Q r := by
  cases h with
  | ok h => exact .ok (hPQ.mp h)
  | error h => exact .error fun hq => h (hPQ.mpr hq)

theorem map (h : Judges P r) (f : α → β) : Judges P (r.map f) := by
  cases h with
  | ok h => exact .ok h
  | error h => exact .error h

theorem bind {f : α → Except Fault β} (h : Judges P r) (hf : ∀ a, r = .ok a → Judges Q (f a)) :
    Judges (P ∧ Q) (r >>= f) := by
  cases h with
  | @ok a h =>
    exact (hf a rfl).congr ⟨fun hq => ⟨h, hq⟩, And.right⟩
  | error h => exact .error fun hpq => h hpq.1

theorem isOk_iff (h : Judges P r) : (∃ a, r = .ok a) ↔ P := by
  cases h with
  | @ok a h => exact ⟨fun _ => h, fun _ => ⟨a, rfl⟩⟩
  | error h =>
    constructor
    · rintro ⟨a, ha⟩
      cases ha
    · intro hp
      exact absurd hp h

theorem exists_note (h : Judges P r) (hP : ¬ P) : ∃ note, r = .error (.wireFormat note) := by
  cases h with
  | ok h => exact absurd h hP
  | error _ => exact ⟨_, rfl⟩

end Judges

/-- A text is wanted, and then what is read from it. -/
theorem judges_string {α : Type} {Q : String → Prop} {f : String → Except Fault α} (path : String)
    (x : Option Json) (hf : ∀ s, Judges (Q s) (f s)) :
    Judges (∃ s, x = some (.str s) ∧ Q s) (expectString path x >>= f) := by
  unfold expectString
  split
  · rename_i s
    refine (hf s).congr ⟨fun hq => ⟨s, rfl, hq⟩, ?_⟩
    rintro ⟨s', hs, hq⟩
    cases hs
    exact hq
  · rename_i hx
    apply Judges.error
    rintro ⟨s, rfl, -⟩
    exact hx s rfl

/-- An object is wanted, and then what is read from its fields. -/
theorem judges_object {α : Type} {Q : List (String × Json) → Prop}
    {f : List (String × Json) → Except Fault α} (path : String) (x : Json)
    (hf : ∀ fields, Judges (Q fields) (f fields)) :
    Judges (∃ fields, x = .obj fields ∧ Q fields) (expectObject path x >>= f) := by
  unfold expectObject
  split
  · rename_i fields
    refine (hf fields).congr ⟨fun hq => ⟨fields, rfl, hq⟩, ?_⟩
    rintro ⟨fields', hfields, hq⟩
    cases hfields
    exact hq
  · rename_i hx
    apply Judges.error
    rintro ⟨fields, rfl, -⟩
    exact hx fields rfl

theorem judges_decodeInt (path : String) (x : Json) :
    Judges (IsBody .int x) (decodeInt path x) := by
  unfold decodeInt
  split
  · rename_i s
    split
    · rename_i h
      exact .ok (.intText h)
    · rename_i h
      apply Judges.error
      intro hx
      cases hx with
      | intText hs => exact h hs
  · rename_i n
    split
    · rename_i i hi
      exact .ok (.intNumber hi)
    · rename_i hnone
      apply Judges.error
      intro hx
      cases hx with
      | intNumber hi => simp [hnone] at hi
  · rename_i hstr hnum
    apply Judges.error
    intro hx
    cases hx with
    | intText => exact hstr _ rfl
    | intNumber => exact hnum _ rfl

theorem judges_decodeFloat (path : String) (x : Json) :
    Judges (IsBody .float x) (decodeFloat path x) := by
  unfold decodeFloat
  split
  · exact .ok (.float _)
  · rename_i s
    split_ifs with hnan hinf hneg
    · exact .ok (.floatName (.inl (beq_iff_eq.mp hnan)))
    · exact .ok (.floatName (.inr (.inl (beq_iff_eq.mp hinf))))
    · exact .ok (.floatName (.inr (.inr (beq_iff_eq.mp hneg))))
    · apply Judges.error
      intro hx
      cases hx with
      | floatName hs =>
        rcases hs with rfl | rfl | rfl
        · exact hnan rfl
        · exact hinf rfl
        · exact hneg rfl
  · rename_i hnum hstr
    apply Judges.error
    intro hx
    cases hx with
    | float => exact hnum _ rfl
    | floatName => exact hstr _ rfl

theorem judges_decodeInstant (path : String) (x : Json) :
    Judges (IsBody .instant x) (decodeInstant path x) := by
  unfold decodeInstant
  refine (judges_object _ x fun fields => judges_string _ _
    (Q := fun iso => (Calendar.readTimestamp iso).isSome = true) fun iso => ?_).congr ?_
  · split
    · rename_i h
      exact .ok h
    · rename_i h
      exact .error h
  · constructor
    · rintro ⟨fields, rfl, iso, h, hiso⟩
      exact .instant h hiso
    · intro hx
      cases hx with
      | instant h hiso => exact ⟨_, rfl, _, h, hiso⟩

theorem judges_decodeDate (path : String) (x : Json) :
    Judges (IsBody .plainDate x) (decodeDate path x) := by
  unfold decodeDate
  refine (judges_object _ x fun fields => judges_string _ _
    (Q := fun iso => isDateText iso = true) fun iso => ?_).congr ?_
  · split
    · rename_i h
      exact .ok h
    · rename_i h
      exact .error h
  · constructor
    · rintro ⟨fields, rfl, iso, h, hiso⟩
      exact .plainDate h hiso
    · intro hx
      cases hx with
      | plainDate h hiso => exact ⟨_, rfl, _, h, hiso⟩

theorem judges_decodeZoned (path : String) (x : Json) :
    Judges (IsBody .zoned x) (decodeZoned path x) := by
  unfold decodeZoned
  refine (judges_object _ x fun fields => judges_string _ _ fun iso => judges_string _ _
    (Q := fun _ => True) fun zone => .ok trivial).congr ?_
  constructor
  · rintro ⟨fields, rfl, iso, h, zone, hzone, -⟩
    exact .zoned h hzone
  · intro hx
    cases hx with
    | zoned h hzone => exact ⟨_, rfl, _, h, _, hzone, trivial⟩

/-- One kind is tried, and then the others. -/
theorem judges_choice (kind : Kind) {key : String} {body : Json} {r r' : Except Fault Val}
    (h : Judges (IsBody kind body) r)
    (h' : kind.key ≠ key → Judges (IsValue (.obj [(key, body)])) r') :
    Judges (IsValue (.obj [(key, body)])) (if key == kind.key then r else r') := by
  split
  · rename_i hkey
    obtain rfl := beq_iff_eq.mp hkey
    exact h.congr isValue_key_iff.symm
  · rename_i hkey
    apply h'
    rintro rfl
    exact hkey (beq_self_eq_true _)

/-- A field is looked for in one place after the other. -/
theorem judges_field {α : Type} {Q : Option Json → Prop} {key k : String} {x : Json}
    {rest : List (String × Json)} {r r' : Except Fault α} (h : Judges (Q (some x)) r)
    (h' : Judges (Q (rest.lookup key)) r') :
    Judges (Q (((k, x) :: rest).lookup key)) (if k == key then r else r') := by
  split
  · rename_i hk
    obtain rfl := beq_iff_eq.mp hk
    rwa [List.lookup_cons_self]
  · rename_i hk
    have hne : (key == k) = false := by
      rw [Bool.eq_false_iff]
      intro he
      exact hk (by rw [beq_iff_eq.mp he]; exact beq_self_eq_true k)
    rwa [List.lookup_cons, hne]

theorem not_isList {P : Json → Prop} {x : Json} (hnull : x ≠ .null) (harr : ∀ xs, x ≠ .arr xs) :
    ¬ IsList P (some x) := by
  rintro ((h | h) | ⟨xs, h, -⟩)
  · cases h
  · exact hnull (Option.some.inj h)
  · exact harr xs (Option.some.inj h)

theorem isList_arr_iff {P : Json → Prop} {xs : List Json} :
    IsList P (some (.arr xs)) ↔ ∀ x ∈ xs, P x := by
  constructor
  · rintro ((h | h) | ⟨ys, h, hys⟩)
    · cases h
    · cases h
    · cases h
      exact hys
  · intro h
    exact .inr ⟨xs, rfl, h⟩

theorem isEntry_iff {x : Json} :
    IsEntry x ↔ ∃ fields, x = .obj fields ∧ (∃ key, fields.lookup "key" = some (.str key)) ∧
      ∃ y, fields.lookup "value" = some y ∧ IsValue y := by
  constructor
  · intro h
    cases h with
    | entry hkey hx h => exact ⟨_, rfl, ⟨_, hkey⟩, _, hx, h⟩
  · rintro ⟨fields, rfl, ⟨key, hkey⟩, y, hy, h⟩
    exact .entry hkey hy h

mutual
/-- What is accepted as a value is what has the wire form of one. -/
theorem judges_decode (path : String) (j : Json) : Judges (IsValue j) (decode path j) := by
  match j with
  | .obj [(key, body)] =>
    rw [decode_single]
    -- one kind of value after the other, in the order in which the keys are tried
    refine judges_choice .int (judges_decodeInt path body) fun hint => ?_
    refine judges_choice .float (judges_decodeFloat path body) fun hfloat => ?_
    refine judges_choice .bool ?_ fun hbool => ?_
    · match body with
      | .bool b => exact .ok (.bool b)
      | .null | .num _ | .str _ | .arr _ | .obj _ => exact .error nofun
    refine judges_choice .string ?_ fun hstring => ?_
    · match body with
      | .str s => exact .ok (.string s)
      | .null | .num _ | .bool _ | .arr _ | .obj _ => exact .error nofun
    refine judges_choice .null (.ok (.null body)) fun hnull => ?_
    refine judges_choice .array ?_ fun harray => ?_
    · match body with
      | .obj fields =>
        exact ((judges_decodeItemsOf (path ++ ".array_value.items") fields).map _).congr
          isBody_array_iff.symm
      | .null | .bool _ | .num _ | .str _ | .arr _ => exact .error nofun
    refine judges_choice .record ?_ fun hrecord => ?_
    · match body with
      | .obj fields =>
        exact ((judges_decodeFieldsOf (path ++ ".record_value.fields") fields).map _).congr
          isBody_record_iff.symm
      | .null | .bool _ | .num _ | .str _ | .arr _ => exact .error nofun
    refine judges_choice .instant (judges_decodeInstant path body) fun hinstant => ?_
    refine judges_choice .plainDate (judges_decodeDate path body) fun hdate => ?_
    refine judges_choice .zoned (judges_decodeZoned path body) fun hzoned => ?_
    apply Judges.error
    intro hvalue
    generalize hx : Json.obj [(key, body)] = x at hvalue
    cases hvalue with
    | field kind h =>
      simp only [Json.obj.injEq, List.cons.injEq, Prod.mk.injEq, and_true] at hx
      have hkey : kind.key = key := hx.1.symm
      cases kind <;> first | exact hint hkey | exact hfloat hkey | exact hbool hkey |
        exact hstring hkey | exact hnull hkey | exact harray hkey | exact hrecord hkey |
        exact hinstant hkey | exact hdate hkey | exact hzoned hkey
  | .obj [] | .obj (_ :: _ :: _) | .null | .bool _ | .num _ | .str _ | .arr _ => exact .error nofun

theorem judges_decodeItemsOf (path : String) (fields : List (String × Json)) :
    Judges (IsList IsValue (fields.lookup "items")) (decodeItemsOf path fields) := by
  match fields with
  | [] => exact .ok (.inl (.inl rfl))
  | (k, x) :: rest =>
    rw [decodeItemsOf_cons]
    refine judges_field ?_ (judges_decodeItemsOf path rest)
    match x with
    | .null => exact .ok (.inl (.inr rfl))
    | .arr items => exact (judges_decodeItems path 0 items).congr isList_arr_iff.symm
    | .bool _ | .num _ | .str _ | .obj _ => exact .error (not_isList nofun nofun)

theorem judges_decodeItems (path : String) (i : Nat) (items : List Json) :
    Judges (∀ x ∈ items, IsValue x) (decodeItems path i items) := by
  match items with
  | [] => exact .ok nofun
  | x :: xs =>
    rw [decodeItems]
    refine ((judges_decode (indexed path i) x).bind fun v _ =>
      (judges_decodeItems path (i + 1) xs).bind (Q := True) fun vs _ => .ok trivial).congr ?_
    simp

theorem judges_decodeFieldsOf (path : String) (fields : List (String × Json)) :
    Judges (IsList IsEntry (fields.lookup "fields")) (decodeFieldsOf path fields) := by
  match fields with
  | [] => exact .ok (.inl (.inl rfl))
  | (k, x) :: rest =>
    rw [decodeFieldsOf_cons]
    refine judges_field ?_ (judges_decodeFieldsOf path rest)
    match x with
    | .null => exact .ok (.inl (.inr rfl))
    | .arr items => exact (judges_decodeEntries path 0 items).congr isList_arr_iff.symm
    | .bool _ | .num _ | .str _ | .obj _ => exact .error (not_isList nofun nofun)

theorem judges_decodeEntries (path : String) (i : Nat) (items : List Json) :
    Judges (∀ x ∈ items, IsEntry x) (decodeEntries path i items) := by
  match items with
  | [] => exact .ok nofun
  | .obj fields :: xs =>
    rw [decodeEntries]
    refine (judges_string _ _ fun key =>
      (judges_decodeValueOf (indexed path i ++ ".value") fields).bind fun v _ =>
        (judges_decodeEntries path (i + 1) xs).bind (Q := True) fun vs _ => .ok trivial).congr ?_
    have hentry : IsEntry (.obj fields) ↔ (∃ key, fields.lookup "key" = some (.str key)) ∧
        ∃ y, fields.lookup "value" = some y ∧ IsValue y := by
      rw [isEntry_iff]
      simp
    rw [List.forall_mem_cons, hentry]
    constructor
    · rintro ⟨key, hkey, hvalue, hxs, -⟩
      exact ⟨⟨⟨key, hkey⟩, hvalue⟩, hxs⟩
    · rintro ⟨⟨⟨key, hkey⟩, hvalue⟩, hxs⟩
      exact ⟨key, hkey, hvalue, hxs, trivial⟩
  | .null :: _ | .bool _ :: _ | .num _ :: _ | .str _ :: _ | .arr _ :: _ =>
    apply Judges.error
    intro h
    obtain ⟨fields, hx, -⟩ := isEntry_iff.mp (h _ List.mem_cons_self)
    cases hx

theorem judges_decodeValueOf (path : String) (fields : List (String × Json)) :
    Judges (∃ x, fields.lookup "value" = some x ∧ IsValue x) (decodeValueOf path fields) := by
  match fields with
  | [] => exact .error nofun
  | (k, x) :: rest =>
    rw [decodeValueOf]
    refine judges_field (Q := fun o => ∃ y, o = some y ∧ IsValue y) ?_
      (judges_decodeValueOf path rest)
    exact (judges_decode path x).congr (by simp)
end

/-! ## Stacks -/

mutual
/-- A serializable value has a wire form. -/
theorem exists_encode {v : Val} (h : v.isSerializable = true) : ∃ x, encode v = .ok x := by
  match v with
  | .int _ | .float _ | .bool _ | .str _ | .null | .instant _ | .plainDate _ | .zoned _ _ =>
    exact ⟨_, rfl⟩
  | .array items =>
    obtain ⟨xs, hxs⟩ : ∃ xs, encodeStack items = .ok xs := exists_encodeItems h
    rw [encode, hxs]
    exact ⟨_, rfl⟩
  | .record fields =>
    obtain ⟨xs, hxs⟩ : ∃ xs, encodeFields fields = .ok xs := exists_encodeFields h
    rw [encode, hxs]
    exact ⟨_, rfl⟩
  | .wordRef _ | .moduleRef _ | .variableRef _ | .options _ _ => simp [Val.isSerializable] at h

theorem exists_encodeItems {vs : List Val} (h : Val.areSerializable vs = true) :
    ∃ xs, encodeStack vs = .ok xs := by
  match vs with
  | [] => exact ⟨[], rfl⟩
  | v :: vs =>
    rw [Val.areSerializable, Bool.and_eq_true] at h
    obtain ⟨x, hx⟩ := exists_encode h.1
    obtain ⟨xs, hxs⟩ := exists_encodeItems h.2
    rw [encodeStack, hx, hxs]
    exact ⟨_, rfl⟩

theorem exists_encodeFields {fields : List (String × Val)}
    (h : Val.fieldsSerializable fields = true) : ∃ xs, encodeFields fields = .ok xs := by
  match fields with
  | [] => exact ⟨[], rfl⟩
  | (k, v) :: fields =>
    rw [Val.fieldsSerializable, Bool.and_eq_true] at h
    obtain ⟨x, hx⟩ := exists_encode h.1
    obtain ⟨xs, hxs⟩ := exists_encodeFields h.2
    rw [encodeFields, hx, hxs]
    exact ⟨_, rfl⟩
end

/-- A stack, deepest value first. It may be left out, though not by a null. -/
def IsStack (x : Option Json) : Prop := x = none ∨ ∃ xs, x = some (.arr xs) ∧ ∀ y ∈ xs, IsValue y

theorem judges_decodeStack (path : String) (x : Option Json) :
    Judges (IsStack x) (decodeStack path x) := by
  unfold decodeStack
  split
  · exact .ok (.inl rfl)
  · rename_i items
    refine (judges_decodeItems path 0 items).congr ⟨fun h => .inr ⟨items, rfl, h⟩, ?_⟩
    rintro (h | ⟨xs, h, hxs⟩)
    · cases h
    · cases h
      exact hxs
  · rename_i y hy
    apply Judges.error
    rintro (h | ⟨xs, h, -⟩)
    · cases h
    · exact hy xs (Option.some.inj h)

/-- The values of a stack that was accepted can be sent again. -/
theorem judges_normalStack (x : Option Json) : Judges (IsStack x) (normalStack x) := by
  unfold normalStack
  refine ((judges_decodeStack "stack" x).bind (Q := True) fun vs hvs => ?_).congr (by simp)
  obtain ⟨xs, hxs⟩ := exists_encodeItems (serializable_decodeStack "stack" x vs hvs)
  rw [hxs]
  exact .ok trivial

/-! ## Requests -/

/-- A body with fields. A missing body has none, and so has a null. -/
inductive HasFields : Option Json → List (String × Json) → Prop
  | missing : HasFields none []
  | null : HasFields (some .null) []
  | object (fields : List (String × Json)) : HasFields (some (.obj fields)) fields

/-- The bodies that are requests of a method. -/
inductive IsRequest : Method → Option Json → Prop
  | word {body : Option Json} {fields : List (String × Json)} {word : String}
    (hbody : HasFields body fields) (hword : fields.lookup "word_name" = some (.str word))
    (hne : word ≠ "") (hstack : IsStack (fields.lookup "stack")) : IsRequest .executeWord body
  | sequence {body : Option Json} {fields : List (String × Json)} (hbody : HasFields body fields)
    (hwords : IsList (fun x => ∃ word, x = .str word) (fields.lookup "word_names"))
    (hstack : IsStack (fields.lookup "stack")) : IsRequest .executeSequence body
  | listing (body : Option Json) : IsRequest .listModules body
  | info {body : Option Json} {fields : List (String × Json)} {module : String}
    (hbody : HasFields body fields)
    (hmodule : fields.lookup "module_name" = some (.str module)) : IsRequest .getModuleInfo body

/-- A body with fields is wanted, and then what is read from these. -/
theorem judges_body {α : Type} {Q : List (String × Json) → Prop}
    {f : List (String × Json) → Except Fault α} (body : Option Json)
    (hf : ∀ fields, Judges (Q fields) (f fields)) :
    Judges (∃ fields, HasFields body fields ∧ Q fields) (bodyFields body >>= f) := by
  have hone : ∀ {fields}, HasFields body fields → bodyFields body = .ok fields →
      Judges (∃ fields, HasFields body fields ∧ Q fields) (bodyFields body >>= f) := by
    intro fields hfields hok
    rw [hok]
    refine (hf fields).congr ⟨fun hq => ⟨fields, hfields, hq⟩, ?_⟩
    rintro ⟨fields', hfields', hq⟩
    cases hfields <;> cases hfields' <;> exact hq
  match body with
  | none => exact hone .missing rfl
  | some .null => exact hone .null rfl
  | some (.obj fields) => exact hone (.object fields) rfl
  | some (.bool _) | some (.num _) | some (.str _) | some (.arr _) =>
    apply Judges.error
    rintro ⟨fields, hfields, -⟩
    cases hfields

theorem judges_names (i : Nat) (xs : List Json) :
    Judges (∀ x ∈ xs, ∃ word, x = .str word) (names i xs) := by
  induction xs generalizing i with
  | nil => exact .ok nofun
  | cons x xs ih =>
    rw [names]
    refine (judges_string _ _ fun word =>
      (ih (i + 1)).bind (Q := True) fun _ _ => .ok trivial).congr ?_
    simp

theorem judges_word (body : Option Json) :
    Judges (IsRequest .executeWord body) (readWordRequest body) := by
  unfold readWordRequest
  refine (judges_body body fun fields => judges_string _ _
    (Q := fun word => word ≠ "" ∧ IsStack (fields.lookup "stack")) fun word => ?_).congr ?_
  · split
    · rename_i hempty
      apply Judges.error
      intro h
      exact h.1 (by simpa using hempty)
    · rename_i hempty
      refine ((judges_normalStack (fields.lookup "stack")).bind (Q := True) fun _ _ =>
        .ok trivial).congr ?_
      have hne : word ≠ "" := by simpa using hempty
      simp [hne]
  · constructor
    · rintro ⟨fields, hbody, word, hword, hne, hstack⟩
      exact .word hbody hword hne hstack
    · intro h
      cases h with
      | word hbody hword hne hstack => exact ⟨_, hbody, _, hword, hne, hstack⟩

theorem judges_sequence (body : Option Json) :
    Judges (IsRequest .executeSequence body) (readSequenceRequest body) := by
  unfold readSequenceRequest
  refine (judges_body body
    (Q := fun fields => IsList (fun x => ∃ word, x = .str word) (fields.lookup "word_names") ∧
      IsStack (fields.lookup "stack")) fun fields => ?_).congr ?_
  · have hrest : ∀ words : List String, Judges (IsStack (fields.lookup "stack"))
        (do return (⟨words, ← normalStack (fields.lookup "stack")⟩ : SequenceRequest)) := by
      intro words
      exact ((judges_normalStack (fields.lookup "stack")).bind (Q := True) fun _ _ =>
        .ok trivial).congr (by simp)
    dsimp only
    split
    · rename_i h
      rw [h]
      exact (Judges.ok (.inl (.inl rfl))).bind fun words _ => hrest words
    · rename_i h
      rw [h]
      exact (Judges.ok (.inl (.inr rfl))).bind fun words _ => hrest words
    · rename_i items h
      rw [h]
      exact ((judges_names 0 items).congr isList_arr_iff.symm).bind fun words _ => hrest words
    · rename_i x hnull harr h
      rw [h]
      exact (Judges.error (not_isList hnull harr)).bind fun words _ => hrest words
  · constructor
    · rintro ⟨fields, hbody, hwords, hstack⟩
      exact .sequence hbody hwords hstack
    · intro h
      cases h with
      | sequence hbody hwords hstack => exact ⟨_, hbody, hwords, hstack⟩

theorem judges_info (body : Option Json) :
    Judges (IsRequest .getModuleInfo body) (readInfoRequest body) := by
  unfold readInfoRequest
  refine (judges_body body fun fields => judges_string _ _ (Q := fun _ => True) fun _ =>
    .ok trivial).congr ?_
  constructor
  · rintro ⟨fields, hbody, module, hmodule, -⟩
    exact .info hbody hmodule
  · intro h
    cases h with
    | info hbody hmodule => exact ⟨_, hbody, _, hmodule, trivial⟩

end Wire

end Wordstack
