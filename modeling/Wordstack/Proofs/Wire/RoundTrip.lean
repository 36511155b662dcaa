import Wordstack.Proofs.Fault.Blame
import Wordstack.Proofs.Text.Spans
import Wordstack.Proofs.Wire.Sent
import Wordstack.Wire.Encode

/-!
# Values that travel

A value that is encoded, sent and decoded again is the value that was sent.

- **Well formed values** (`Val.WellFormed`): what literals and decoding make. The text of an instant
  is a timestamp, the text of a date has its ten characters, a record has each key once.
- **Wire forms** (`decode_encode`, `decodeItems_encodeStack`): decoding undoes encoding.
- **Texts** (`decode_of_sent_eq`): so it does when the sign of a zero is lost on the way.
- **Round trips** (`values_return_from_the_wire`): both, for values and for stacks.
- **Names and bodies** (`Wire.keyOf`, `Wire.bodyOf`): a wire form says its kind, then the value.
- **Serializable values** (`Wire.isSerializable_of_encode`): no others have wire forms.
- **Injectivity** (`Wire.encode_inj`, `Wire.encodeStack_inj`): different values have different wire
  forms, whether or not decoding takes them back.
-/

namespace Wordstack

/-- A text of the form `dddd-dd-dd`. -/
def HasDateForm (s : String) : Prop :=
  ∃ year month day : List Char,
    year.length = 4 ∧ month.length = 2 ∧ day.length = 2 ∧
    (∀ c ∈ year ++ month ++ day, c.isDigit = true) ∧
    s.toList = year ++ '-' :: month ++ '-' :: day

namespace Val

mutual
/-- What literals and decoding make of texts, and records with each key once. -/
def WellFormed : Val → Prop
  | array items => ItemsWellFormed items
  | record fields => (fields.map (·.1)).Nodup ∧ FieldsWellFormed fields
  | instant iso => (Calendar.readTimestamp iso).isSome = true
  | plainDate iso => HasDateForm iso
  | _ => True

/-- `Val.WellFormed` of every item. -/
def ItemsWellFormed : List Val → Prop
  | [] => True
  | v :: vs => WellFormed v ∧ ItemsWellFormed vs

/-- `Val.WellFormed` of the value of every field. -/
def FieldsWellFormed : List (String × Val) → Prop
  | [] => True
  | (_, v) :: vs => WellFormed v ∧ FieldsWellFormed vs
end
end Val

namespace Wire

theorem isInteger_toString (n : Int) : isInteger (toString n).toList = true := by
  rw [isInteger, Text.toList_toString]
  split
  · exact Text.allDigits_toDigits _
  · have h := Text.head?_toDigits_ne n.natAbs
    simpa [h] using Text.allDigits_toDigits n.natAbs

theorem decodeInt_toString (path : String) (n : Int) :
    decodeInt path (.str (toString n)) = .ok (.int n) := by
  simp only [decodeInt, isInteger_toString, Text.toInt_toString, if_true]

theorem decodeFloat_encodeFloat (path : String) (x : Binary64) :
    decodeFloat path (encodeFloat x) = .ok (.float x) := by
  cases x with
  | infinite negative => cases negative <;> rfl
  | _ => rfl

theorem isDateText_of_hasDateForm {s : String} (h : HasDateForm s) : isDateText s = true := by
  obtain ⟨year, month, day, hy, hm, hd, digits, hs⟩ := h
  match year, hy, month, hm, day, hd with
  | [a, b, c, d], _, [e, f], _, [g, h], _ =>
    simp only [List.cons_append, List.nil_append] at hs
    simpa [isDateText, hs] using digits

theorem isDateText_iff {s : String} : isDateText s = true ↔ HasDateForm s := by
  refine ⟨fun h => ?_, isDateText_of_hasDateForm⟩
  unfold isDateText at h
  split at h
  · rename_i a b c d x e f y g h' hs
    simp only [Bool.and_eq_true, beq_iff_eq] at h
    obtain ⟨⟨hall, rfl⟩, rfl⟩ := h
    exact ⟨[a, b, c, d], [e, f], [g, h'], rfl, rfl, rfl, List.all_eq_true.mp hall, hs⟩
  · cases h

mutual
/-- Every serializable value has a wire form, and decoding it gives the value back. -/
theorem decode_encode {v : Val} (hs : v.isSerializable = true) (hw : v.WellFormed) :
    ∃ j, encode v = .ok j ∧ ∀ path, decode path j = .ok v := by
  match v with
  | .int n => exact ⟨_, rfl, fun path => (decode_single ..).trans (decodeInt_toString path n)⟩
  | .float x =>
    exact ⟨_, rfl, fun path => (decode_single ..).trans (decodeFloat_encodeFloat path x)⟩
  | .bool b => exact ⟨_, rfl, fun path => rfl⟩
  | .str s => exact ⟨_, rfl, fun path => rfl⟩
  | .null => exact ⟨_, rfl, fun path => rfl⟩
  | .array items =>
    rw [Val.isSerializable] at hs
    rw [Val.WellFormed] at hw
    obtain ⟨xs, hxs, back⟩ := decodeItems_encodeStack hs hw
    refine ⟨.obj [("array_value", .obj [("items", .arr xs)])], by rw [encode, hxs]; rfl, ?_⟩
    intro path
    have h : decodeItemsOf (path ++ ".array_value.items") [("items", .arr xs)] = .ok items :=
      (decodeItemsOf_cons ..).trans (back _ 0)
    exact (decode_single ..).trans (by simp [h, Except.map])
  | .record fields =>
    rw [Val.isSerializable] at hs
    rw [Val.WellFormed] at hw
    obtain ⟨xs, hxs, back⟩ := decodeEntries_encodeFields hs hw.2
    refine ⟨.obj [("record_value", .obj [("fields", .arr xs)])], by rw [encode, hxs]; rfl, ?_⟩
    intro path
    have h : decodeFieldsOf (path ++ ".record_value.fields") [("fields", .arr xs)] = .ok fields :=
      (decodeFieldsOf_cons ..).trans (back _ 0)
    exact (decode_single ..).trans
      (by simp [h, Except.map, Val.ofFields, Json.distinctFields_of_nodup hw.1])
  | .instant iso =>
    rw [Val.WellFormed] at hw
    refine ⟨_, rfl, fun path => (decode_single ..).trans ?_⟩
    simp [decodeInstant, expectObject, expectString, hw, bind, Except.bind, pure, Except.pure]
  | .plainDate iso =>
    rw [Val.WellFormed] at hw
    refine ⟨_, rfl, fun path => (decode_single ..).trans ?_⟩
    simp [decodeDate, expectObject, expectString, isDateText_of_hasDateForm hw, bind, Except.bind,
      pure, Except.pure]
  | .zoned iso zone => exact ⟨_, rfl, fun path => rfl⟩
  | .wordRef _ | .moduleRef _ | .variableRef _ | .options _ _ => simp [Val.isSerializable] at hs

theorem decodeItems_encodeStack {vs : List Val} (hs : Val.areSerializable vs = true)
    (hw : Val.ItemsWellFormed vs) :
    ∃ js, encodeStack vs = .ok js ∧ ∀ path i, decodeItems path i js = .ok vs := by
  match vs with
  | [] => exact ⟨[], rfl, fun path i => rfl⟩
  | v :: vs =>
    rw [Val.areSerializable, Bool.and_eq_true] at hs
    rw [Val.ItemsWellFormed] at hw
    obtain ⟨x, hx, head⟩ := decode_encode hs.1 hw.1
    obtain ⟨xs, hxs, tail⟩ := decodeItems_encodeStack hs.2 hw.2
    refine ⟨x :: xs, by rw [encodeStack, hx, hxs]; rfl, fun path i => ?_⟩
    rw [decodeItems, head, tail]
    rfl

theorem decodeEntries_encodeFields {fields : List (String × Val)}
    (hs : Val.fieldsSerializable fields = true) (hw : Val.FieldsWellFormed fields) :
    ∃ js, encodeFields fields = .ok js ∧ ∀ path i, decodeEntries path i js = .ok fields := by
  match fields with
  | [] => exact ⟨[], rfl, fun path i => rfl⟩
  | (k, v) :: fields =>
    rw [Val.fieldsSerializable, Bool.and_eq_true] at hs
    rw [Val.FieldsWellFormed] at hw
    obtain ⟨x, hx, head⟩ := decode_encode hs.1 hw.1
    obtain ⟨xs, hxs, tail⟩ := decodeEntries_encodeFields hs.2 hw.2
    refine ⟨.obj [("key", .str k), ("value", x)] :: xs, by rw [encodeFields, hx, hxs]; rfl, ?_⟩
    intro path i
    have value : ∀ path, decodeValueOf path [("key", .str k), ("value", x)] = .ok v :=
      fun path => head path
    rw [decodeEntries, value, tail]
    rfl
end

theorem areSerializable_iff (vs : List Val) :
    Val.areSerializable vs = true ↔ ∀ v ∈ vs, v.isSerializable = true := by
  induction vs with
  | nil => simp [Val.areSerializable]
  | cons v vs ih => simp [Val.areSerializable, ih]

theorem itemsWellFormed_iff (vs : List Val) :
    Val.ItemsWellFormed vs ↔ ∀ v ∈ vs, v.WellFormed := by
  induction vs with
  | nil => simp [Val.ItemsWellFormed]
  | cons v vs ih => simp [Val.ItemsWellFormed, ih]

theorem fieldsWellFormed_iff (fields : List (String × Val)) :
    Val.FieldsWellFormed fields ↔ ∀ e ∈ fields, e.2.WellFormed := by
  induction fields with
  | nil => simp [Val.FieldsWellFormed]
  | cons e rest ih => simp [Val.FieldsWellFormed, ih]

/-- What arrives in the place of a wire form decodes to what that form decodes to, but for the
signs of zeros. -/
theorem decode_of_sent_eq {path : String} {j j' : Json} {v : Val} (hs : v.isSerializable = true)
    (h : decode path j = .ok v) (same : j'.sent = j.sent) :
    ∃ w, decode path j' = .ok w ∧ v.equal w = true ∧ v.sameKinds w = true := by
  have arrives : (decode path j').map Val.unsigned = .ok v.unsigned := by
    rw [← decode_sent, same, decode_sent, h]
    rfl
  cases hj : decode path j' with
  | error f => simp [hj, Except.map] at arrives
  | ok w =>
    simp only [hj, Except.map, Except.ok.injEq] at arrives
    exact ⟨w, rfl, Val.equal_of_unsigned_eq hs arrives.symm⟩

theorem decodeItems_of_sent_eq {path : String} {i : Nat} {js js' : List Json} {vs : List Val}
    (hs : Val.areSerializable vs = true) (h : decodeItems path i js = .ok vs)
    (same : Json.sentItems js' = Json.sentItems js) :
    ∃ ws, decodeItems path i js' = .ok ws ∧ Val.equalItems vs ws = true ∧
      Val.sameKindsItems vs ws = true := by
  have arrives : (decodeItems path i js').map Val.unsignedItems = .ok (Val.unsignedItems vs) := by
    rw [← decodeItems_sent, same, decodeItems_sent, h]
    rfl
  cases hj : decodeItems path i js' with
  | error f => simp [hj, Except.map] at arrives
  | ok ws =>
    simp only [hj, Except.map, Except.ok.injEq] at arrives
    exact ⟨ws, rfl, Val.equalItems_of_unsigned_eq hs arrives.symm⟩

/-- A value and a stack of values that can be sent come back from the wire as they were: from their
wire forms exactly, and from any text that keeps all of these forms but the signs of zeros as equal
values of the same kinds at every node. -/
theorem values_return_from_the_wire {v : Val} {vs : List Val} (hv : v.isSerializable = true)
    (wv : v.WellFormed) (hvs : ∀ x ∈ vs, x.isSerializable = true)
    (wvs : ∀ x ∈ vs, x.WellFormed) :
    (∃ j, encode v = .ok j ∧ (∀ path, decode path j = .ok v) ∧ v.equal v = true ∧
      ∀ path received, received.sent = j.sent →
        ∃ w, decode path received = .ok w ∧ v.equal w = true ∧ v.sameKinds w = true) ∧
    (∃ js, encodeStack vs = .ok js ∧ (∀ path, decodeStack path (some (.arr js)) = .ok vs) ∧
      Val.equalItems vs vs = true ∧
      ∀ path received, received.sent = (Json.arr js).sent →
        ∃ ws, decodeStack path (some received) = .ok ws ∧ Val.equalItems vs ws = true ∧
          Val.sameKindsItems vs ws = true) := by
  have hvs' := (areSerializable_iff vs).mpr hvs
  obtain ⟨j, hj, back⟩ := decode_encode hv wv
  obtain ⟨js, hjs, backs⟩ := decodeItems_encodeStack hvs' ((itemsWellFormed_iff vs).mpr wvs)
  refine ⟨⟨j, hj, back, (Val.equal_of_unsigned_eq hv rfl).1, ?_⟩,
    ⟨js, hjs, fun path => backs path 0, (Val.equalItems_of_unsigned_eq hvs' rfl).1, ?_⟩⟩
  · intro path received same
    exact decode_of_sent_eq hv (back path) same
  · intro path received same
    cases received with
    | arr js' =>
      rw [Json.sent, Json.sent, Json.arr.injEq] at same
      exact decodeItems_of_sent_eq hvs' (backs path 0) same
    | _ => simp [Json.sent] at same

/-- A record with a large integer, the zero below zero, not-a-number and the texts of an instant
and a date. -/
def sampleRecord : Val :=
  .record [
    ("n", .int 123456789012345678901234567890),
    ("items", .array [.float (.zero true), .float .nan, .int (-7), .bool false, .null]),
    ("at", .array [.instant "2024-01-02T03:04:05Z", .plainDate "2024-01-02",
      .zoned "2024-01-02T03:04:05+01:00" "Europe/Paris"])]

theorem sampleRecord_wellFormed : sampleRecord.WellFormed := by
  simp only [sampleRecord, Val.WellFormed, Val.FieldsWellFormed, Val.ItemsWellFormed]
  refine ⟨by decide, trivial, by simp, ⟨by decide +kernel, ?_, by simp⟩, trivial⟩
  exact ⟨['2', '0', '2', '4'], ['0', '1'], ['0', '2'], rfl, rfl, rfl, List.all_eq_true.mp rfl, rfl⟩

theorem values_return_from_the_wire_sample :
    ∃ j, encode sampleRecord = .ok j ∧ decode "value" j = .ok sampleRecord ∧
      ∃ w, decode "value" j.sent = .ok w ∧ sampleRecord.equal w = true ∧
        sampleRecord.sameKinds w = true := by
  have serializable : sampleRecord.isSerializable = true := rfl
  obtain ⟨⟨j, hj, back, -, arrives⟩, -⟩ :=
    @values_return_from_the_wire _ [sampleRecord] serializable sampleRecord_wellFormed
      (by simp [serializable]) (by simp [sampleRecord_wellFormed])
  exact ⟨j, hj, back _, arrives "value" j.sent (Json.sent_sent j)⟩

/-! ## One value a wire form -/

theorem encodeFloat_inj {x y : Binary64} (h : encodeFloat x = encodeFloat y) : x = y := by
  have back := decodeFloat_encodeFloat "" x
  rw [h, decodeFloat_encodeFloat, Except.ok.injEq, Val.float.injEq] at back
  exact back.symm

theorem toString_inj {m n : Int} (h : toString m = toString n) : m = n := by
  have back := decodeInt_toString "" m
  rw [h, decodeInt_toString, Except.ok.injEq, Val.int.injEq] at back
  exact back.symm

/-! ## Names and bodies -/

/-- The name under which a value of a kind stands on the wire. -/
def keyOf : Val → String
  | .int _ => "int_value"
  | .float _ => "float_value"
  | .bool _ => "bool_value"
  | .str _ => "string_value"
  | .null => "null_value"
  | .array _ => "array_value"
  | .record _ => "record_value"
  | .instant _ => "instant_value"
  | .plainDate _ => "plain_date_value"
  | .zoned _ _ => "zoned_datetime_value"
  | .wordRef _ | .moduleRef _ | .variableRef _ | .options _ _ => ""

/-- What stands there. -/
def bodyOf : Val → Except Fault Json
  | .int n => .ok (.str (toString n))
  | .float x => .ok (encodeFloat x)
  | .bool b => .ok (.bool b)
  | .str s => .ok (.str s)
  | .null => .ok (.obj [])
  | .array items => (encodeStack items).map fun xs => .obj [("items", .arr xs)]
  | .record fields => (encodeFields fields).map fun xs => .obj [("fields", .arr xs)]
  | .instant iso => .ok (.obj [("iso8601", .str iso)])
  | .plainDate iso => .ok (.obj [("iso8601_date", .str iso)])
  | .zoned iso zone => .ok (.obj [("iso8601", .str iso), ("timezone", .str zone)])
  | .wordRef _ => .error (unsendable "WordRef")
  | .moduleRef _ => .error (unsendable "ModuleRef")
  | .variableRef _ => .error (unsendable "VariableRef")
  | .options _ _ => .error (unsendable "Options")

theorem encode_eq (v : Val) : encode v = (bodyOf v).map fun body => .obj [(keyOf v, body)] := by
  cases v with
  | array items => rw [encode, bodyOf]; cases encodeStack items <;> rfl
  | record fields => rw [encode, bodyOf]; cases encodeFields fields <;> rfl
  | _ => rw [encode, bodyOf]; rfl

theorem of_map_ok {α β : Type} {x : Except Fault α} {f : α → β} {b : β} (h : x.map f = .ok b) :
    ∃ a, x = .ok a ∧ b = f a := by
  cases x with
  | ok a => exact ⟨a, rfl, (Except.ok.inj h).symm⟩
  | error e => cases h

theorem of_encodeStack_cons {v : Val} {vs : List Val} {js : List Json}
    (h : encodeStack (v :: vs) = .ok js) :
    ∃ x xs, encode v = .ok x ∧ encodeStack vs = .ok xs ∧ js = x :: xs := by
  obtain ⟨x, hx, h⟩ := Except.of_bind_ok h
  obtain ⟨xs, hxs, h⟩ := Except.of_bind_ok h
  exact ⟨x, xs, hx, hxs, (Except.ok.inj h).symm⟩

theorem of_encodeFields_cons {key : String} {v : Val} {fields : List (String × Val)}
    {js : List Json} (h : encodeFields ((key, v) :: fields) = .ok js) :
    ∃ x xs, encode v = .ok x ∧ encodeFields fields = .ok xs ∧
      js = .obj [("key", .str key), ("value", x)] :: xs := by
  obtain ⟨x, hx, h⟩ := Except.of_bind_ok h
  obtain ⟨xs, hxs, h⟩ := Except.of_bind_ok h
  exact ⟨x, xs, hx, hxs, (Except.ok.inj h).symm⟩

/-! ## Serializable values -/

mutual
/-- What has a wire form is serializable. -/
theorem isSerializable_of_encode {v : Val} {j : Json} (h : encode v = .ok j) :
    v.isSerializable = true := by
  rw [encode_eq] at h
  obtain ⟨body, hbody, -⟩ := of_map_ok h
  cases v with
  | array items =>
    obtain ⟨xs, hxs, -⟩ := of_map_ok hbody
    exact areSerializable_of_encodeStack hxs
  | record fields =>
    obtain ⟨xs, hxs, -⟩ := of_map_ok hbody
    exact fieldsSerializable_of_encodeFields hxs
  | wordRef | moduleRef | variableRef | options => cases hbody
  | _ => rfl

theorem areSerializable_of_encodeStack {vs : List Val} {js : List Json}
    (h : encodeStack vs = .ok js) : Val.areSerializable vs = true := by
  match vs with
  | [] => rfl
  | v :: vs =>
    obtain ⟨x, xs, hx, hxs, -⟩ := of_encodeStack_cons h
    rw [Val.areSerializable, isSerializable_of_encode hx, areSerializable_of_encodeStack hxs]
    rfl

theorem fieldsSerializable_of_encodeFields {fields : List (String × Val)} {js : List Json}
    (h : encodeFields fields = .ok js) : Val.fieldsSerializable fields = true := by
  match fields with
  | [] => rfl
  | (key, v) :: fields =>
    obtain ⟨x, xs, hx, hxs, -⟩ := of_encodeFields_cons h
    rw [Val.fieldsSerializable, isSerializable_of_encode hx,
      fieldsSerializable_of_encodeFields hxs]
    rfl
end

/-! ## Injectivity -/

mutual
/-- A wire form is that of one value only. -/
theorem encode_inj {v w : Val} {j : Json} (hv : encode v = .ok j) (hw : encode w = .ok j) :
    v = w := by
  rw [encode_eq] at hv hw
  replace ⟨body, hv, hj⟩ := of_map_ok hv
  replace ⟨body', hw, heq⟩ := of_map_ok hw
  rw [hj] at heq
  simp only [Json.obj.injEq, List.cons.injEq, Prod.mk.injEq, and_true] at heq
  obtain ⟨hkey, rfl⟩ := heq
  have hsame := hv.trans hw.symm
  -- values of different kinds stand under different names
  cases v <;> cases w <;> simp only [keyOf, String.reduceEq] at hkey
  case int.int => exact congrArg _ (toString_inj (by simpa [bodyOf] using hsame))
  case float.float => exact congrArg _ (encodeFloat_inj (Except.ok.inj hsame))
  case array.array =>
    obtain ⟨xs, hxs, rfl⟩ := of_map_ok hv
    obtain ⟨ys, hys, heq⟩ := of_map_ok hw
    obtain rfl : xs = ys := by simpa using heq
    rw [encodeStack_inj hxs hys]
  case record.record =>
    obtain ⟨xs, hxs, rfl⟩ := of_map_ok hv
    obtain ⟨ys, hys, heq⟩ := of_map_ok hw
    obtain rfl : xs = ys := by simpa using heq
    rw [encodeFields_inj hxs hys]
  case null.null => rfl
  all_goals first
    | simpa [bodyOf] using hsame
    | cases hv

/-- The wire forms of a stack are those of one stack only. -/
theorem encodeStack_inj {vs ws : List Val} {js : List Json} (hv : encodeStack vs = .ok js)
    (hw : encodeStack ws = .ok js) : vs = ws := by
  match vs, ws with
  | [], [] => rfl
  | [], w :: ws =>
    obtain ⟨x, xs, -, -, rfl⟩ := of_encodeStack_cons hw
    cases hv
  | v :: vs, [] =>
    obtain ⟨x, xs, -, -, rfl⟩ := of_encodeStack_cons hv
    cases hw
  | v :: vs, w :: ws =>
    obtain ⟨x, xs, hx, hxs, rfl⟩ := of_encodeStack_cons hv
    obtain ⟨y, ys, hy, hys, heq⟩ := of_encodeStack_cons hw
    obtain ⟨rfl, rfl⟩ := List.cons.inj heq
    rw [encode_inj hx hy, encodeStack_inj hxs hys]

theorem encodeFields_inj {vs ws : List (String × Val)} {js : List Json}
    (hv : encodeFields vs = .ok js) (hw : encodeFields ws = .ok js) : vs = ws := by
  match vs, ws with
  | [], [] => rfl
  | [], (_, _) :: ws =>
    obtain ⟨x, xs, -, -, rfl⟩ := of_encodeFields_cons hw
    cases hv
  | (_, _) :: vs, [] =>
    obtain ⟨x, xs, -, -, rfl⟩ := of_encodeFields_cons hv
    cases hw
  | (k, v) :: vs, (l, w) :: ws =>
    obtain ⟨x, xs, hx, hxs, rfl⟩ := of_encodeFields_cons hv
    obtain ⟨y, ys, hy, hys, heq⟩ := of_encodeFields_cons hw
    obtain ⟨⟨rfl, rfl⟩, rfl⟩ : (k = l ∧ x = y) ∧ xs = ys := by simpa using heq
    rw [encode_inj hx hy, encodeFields_inj hxs hys]
end

end Wire

end Wordstack
