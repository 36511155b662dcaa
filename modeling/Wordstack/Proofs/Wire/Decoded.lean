import Wordstack.Proofs.Wire.RoundTrip

/-!
# Decoded values

What is decoded from the wire is made from leaves in one way (`Wire.MadeUp`, `Wire.madeUp_decode`).

- **Serializable** (`Wire.serializable_decode`, `Wire.serializable_decodeStack`): it has no part
  that exists only inside of one process, so a reply never hands over a reference.
- **Well formed** (`Wire.wellFormed_decodeStack`): the texts in it are those of instants and dates,
  and no record has a key twice, so encoding and decoding it again gives it back
  (`Wire.decodeStack_encodeStack`).
-/

namespace Wordstack

/-- A value, if there is one, has the property. -/
def Yields {α : Type} (P : α → Prop) (r : Except Fault α) : Prop := ∀ a, r = .ok a → P a

namespace Yields

variable {α β : Type} {P : α → Prop} {Q : β → Prop} {r : Except Fault α}

theorem ok {a : α} (h : P a) : Yields P (.ok a) := fun _ e => Except.ok.inj e ▸ h

theorem error {f : Fault} : Yields P (.error f) := nofun

theorem map {f : α → β} (h : Yields P r) (hf : ∀ a, P a → Q (f a)) : Yields Q (r.map f) := by
  cases r with
  | ok a => exact ok (hf a (h a rfl))
  | error f => exact error

theorem bind {f : α → Except Fault β} (h : Yields P r) (hf : ∀ a, P a → Yields Q (f a)) :
    Yields Q (r >>= f) := by
  cases r with
  | ok a => exact hf a (h a rfl)
  | error f => exact error

/-- A value that is needed only to go on. -/
theorem andThen {f : α → Except Fault β} (hf : ∀ a, Yields Q (f a)) : Yields Q (r >>= f) :=
  bind (P := fun _ => True) (fun _ _ => ⟨⟩) fun a _ => hf a

theorem ite {c : Prop} [Decidable c] {r' : Except Fault α} (h : Yields P r) (h' : Yields P r') :
    Yields P (if c then r else r') := by
  split
  · exact h
  · exact h'

theorem nil : Yields (fun as : List α => ∀ a ∈ as, P a) (.ok []) := ok (List.forall_mem_nil P)

theorem cons {a : α} {as : List α} (h : P a) (hs : ∀ a ∈ as, P a) :
    Yields (fun as : List α => ∀ a ∈ as, P a) (.ok (a :: as)) :=
  ok (P := fun as : List α => ∀ a ∈ as, P a) (List.forall_mem_cons.mpr ⟨h, hs⟩)

end Yields

theorem Val.fieldsSerializable_iff {fields : List (String × Val)} :
    fieldsSerializable fields = true ↔ ∀ e ∈ fields, e.2.isSerializable = true := by
  induction fields with
  | nil => simp [fieldsSerializable]
  | cons e rest ih => simp [fieldsSerializable, ih]

theorem Json.forall_setField {α : Type} {P : α → Prop} {fields : List (String × α)} {key : String}
    {value : α} (hf : ∀ e ∈ fields, P e.2) (hv : P value) :
    ∀ e ∈ setField fields key value, P e.2 := by
  induction fields with
  | nil => exact List.forall_mem_singleton.mpr hv
  | cons f rest ih =>
    obtain ⟨hhead, htail⟩ := List.forall_mem_cons.mp hf
    unfold setField
    split
    · exact List.forall_mem_cons.mpr ⟨hv, htail⟩
    · exact List.forall_mem_cons.mpr ⟨hhead, ih htail⟩

theorem Json.forall_distinctFields {α : Type} {P : α → Prop} {fields : List (String × α)}
    (hf : ∀ e ∈ fields, P e.2) : ∀ e ∈ distinctFields fields, P e.2 :=
  List.foldlRecOn (motive := fun acc : List (String × α) => ∀ e ∈ acc, P e.2) fields _
    (List.forall_mem_nil _) fun _ hacc e he => forall_setField hacc (hf e he)

theorem Json.mem_keys_setField {α : Type} {fields : List (String × α)} {key k : String} {value : α} :
    k ∈ (setField fields key value).map (·.1) ↔ k ∈ fields.map (·.1) ∨ k = key := by
  induction fields with
  | nil => simp [setField]
  | cons f rest ih =>
    unfold setField
    split
    · rename_i h
      simp only [List.map_cons, List.mem_cons, beq_iff_eq.mp h]
      exact ⟨.inl, fun hk => hk.elim id .inl⟩
    · simp only [List.map_cons, List.mem_cons, ih, or_assoc]

theorem Json.nodup_setField {α : Type} {fields : List (String × α)} {key : String} {value : α}
    (h : (fields.map (·.1)).Nodup) : ((setField fields key value).map (·.1)).Nodup := by
  induction fields with
  | nil => exact List.nodup_singleton key
  | cons f rest ih =>
    obtain ⟨hhead, htail⟩ := List.nodup_cons.mp h
    unfold setField
    split
    · exact List.nodup_cons.mpr ⟨hhead, htail⟩
    · rename_i hne
      refine List.nodup_cons.mpr ⟨fun hk => ?_, ih htail⟩
      obtain hk | hk := mem_keys_setField.mp hk
      · exact hhead hk
      · exact hne (beq_iff_eq.mpr hk)

theorem Json.nodup_distinctFields {α : Type} (fields : List (String × α)) :
    ((distinctFields fields).map (·.1)).Nodup := by
  refine List.foldlRecOn (motive := fun acc : List (String × α) => (acc.map (·.1)).Nodup) fields _
    ?_ fun _ hacc _ _ => nodup_setField hacc
  exact List.nodup_nil

namespace Wire

open Yields

/-- The property holds of the leaves on the wire, and of arrays and records when it holds of the
values in them. -/
structure MadeUp (P : Val → Prop) : Prop where
  int : ∀ n, P (.int n)
  float : ∀ x, P (.float x)
  bool : ∀ b, P (.bool b)
  str : ∀ s, P (.str s)
  null : P .null
  instant : ∀ iso, (Calendar.readTimestamp iso).isSome = true → P (.instant iso)
  plainDate : ∀ iso, isDateText iso = true → P (.plainDate iso)
  zoned : ∀ iso zone, P (.zoned iso zone)
  array : ∀ items, (∀ v ∈ items, P v) → P (.array items)
  record : ∀ fields : List (String × Val), (∀ e ∈ fields, P e.2) → P (.ofFields fields)

variable {P : Val → Prop}

theorem MadeUp.decodeInt (hP : MadeUp P) (path : String) (x : Json) :
    Yields P (decodeInt path x) := by
  unfold Wire.decodeInt
  split
  · exact ite (ok (hP.int _)) error
  · split
    · exact ok (hP.int _)
    · exact error
  · exact error

theorem MadeUp.decodeFloat (hP : MadeUp P) (path : String) (x : Json) :
    Yields P (decodeFloat path x) := by
  unfold Wire.decodeFloat
  split
  · exact ok (hP.float _)
  · exact ite (ok (hP.float _)) (ite (ok (hP.float _)) (ite (ok (hP.float _)) error))
  · exact error

theorem MadeUp.decodeInstant (hP : MadeUp P) (path : String) (x : Json) :
    Yields P (decodeInstant path x) := by
  refine andThen fun _ => andThen fun iso => ?_
  split
  · rename_i h
    exact ok (hP.instant iso h)
  · exact error

theorem MadeUp.decodeDate (hP : MadeUp P) (path : String) (x : Json) :
    Yields P (decodeDate path x) := by
  refine andThen fun _ => andThen fun iso => ?_
  split
  · rename_i h
    exact ok (hP.plainDate iso h)
  · exact error

theorem MadeUp.decodeZoned (hP : MadeUp P) (path : String) (x : Json) :
    Yields P (decodeZoned path x) :=
  andThen fun _ => andThen fun iso => andThen fun zone => ok (hP.zoned iso zone)

mutual
/-- What is decoded has every property that is made up from the leaves. -/
theorem madeUp_decode (hP : MadeUp P) (path : String) (j : Json) : Yields P (decode path j) := by
  match j with
  | .obj [(key, body)] =>
    rw [decode_single]
    -- one kind of value after the other, in the order in which the keys are tried
    refine ite (hP.decodeInt path body) ?_
    refine ite (hP.decodeFloat path body) ?_
    refine ite (by cases body <;> first | exact ok (hP.bool _) | exact error) ?_
    refine ite (map (P := fun _ => True) (fun _ _ => ⟨⟩) fun s _ => hP.str s) ?_
    refine ite (ok hP.null) ?_
    refine ite ?_ ?_
    · match body with
      | .obj fields =>
        exact (madeUp_decodeItemsOf hP (path ++ ".array_value.items") fields).map hP.array
      | .null | .bool _ | .num _ | .str _ | .arr _ => exact error
    refine ite ?_ ?_
    · match body with
      | .obj fields =>
        exact (madeUp_decodeFieldsOf hP (path ++ ".record_value.fields") fields).map hP.record
      | .null | .bool _ | .num _ | .str _ | .arr _ => exact error
    refine ite (hP.decodeInstant path body) ?_
    refine ite (hP.decodeDate path body) ?_
    exact ite (hP.decodeZoned path body) error
  | .obj [] | .obj (_ :: _ :: _) | .null | .bool _ | .num _ | .str _ | .arr _ => exact error

theorem madeUp_decodeItemsOf (hP : MadeUp P) (path : String) (fields : List (String × Json)) :
    Yields (fun vs => ∀ v ∈ vs, P v) (decodeItemsOf path fields) := by
  match fields with
  | [] => exact nil
  | (k, x) :: rest =>
    rw [decodeItemsOf_cons]
    refine ite ?_ (madeUp_decodeItemsOf hP path rest)
    match x with
    | .null => exact nil
    | .arr items => exact madeUp_decodeItems hP path 0 items
    | .bool _ | .num _ | .str _ | .obj _ => exact error

theorem madeUp_decodeItems (hP : MadeUp P) (path : String) (i : Nat) (items : List Json) :
    Yields (fun vs => ∀ v ∈ vs, P v) (decodeItems path i items) := by
  match items with
  | [] => exact nil
  | x :: xs =>
    rw [decodeItems]
    refine (madeUp_decode hP (indexed path i) x).bind fun v hv => ?_
    exact (madeUp_decodeItems hP path (i + 1) xs).bind fun vs hvs => cons hv hvs

theorem madeUp_decodeFieldsOf (hP : MadeUp P) (path : String) (fields : List (String × Json)) :
    Yields (fun es => ∀ e ∈ es, P e.2) (decodeFieldsOf path fields) := by
  match fields with
  | [] => exact nil
  | (k, x) :: rest =>
    rw [decodeFieldsOf_cons]
    refine ite ?_ (madeUp_decodeFieldsOf hP path rest)
    match x with
    | .null => exact nil
    | .arr items => exact madeUp_decodeEntries hP path 0 items
    | .bool _ | .num _ | .str _ | .obj _ => exact error

theorem madeUp_decodeEntries (hP : MadeUp P) (path : String) (i : Nat) (items : List Json) :
    Yields (fun es => ∀ e ∈ es, P e.2) (decodeEntries path i items) := by
  match items with
  | [] => exact nil
  | .obj fields :: xs =>
    rw [decodeEntries]
    refine andThen fun key => ?_
    refine (madeUp_decodeValueOf hP (indexed path i ++ ".value") fields).bind fun v hv => ?_
    exact (madeUp_decodeEntries hP path (i + 1) xs).bind fun rest hrest =>
      cons (P := fun e : String × Val => P e.2) hv hrest
  | .null :: _ | .bool _ :: _ | .num _ :: _ | .str _ :: _ | .arr _ :: _ => exact error

theorem madeUp_decodeValueOf (hP : MadeUp P) (path : String) (fields : List (String × Json)) :
    Yields P (decodeValueOf path fields) := by
  match fields with
  | [] => exact error
  | (k, x) :: rest =>
    rw [decodeValueOf]
    exact ite (madeUp_decode hP path x) (madeUp_decodeValueOf hP path rest)
end

theorem madeUp_decodeStack (hP : MadeUp P) (path : String) (x : Option Json) :
    Yields (fun vs => ∀ v ∈ vs, P v) (decodeStack path x) := by
  unfold decodeStack
  split
  · exact nil
  · exact madeUp_decodeItems hP path 0 _
  · exact error

/-! ## Serializable values -/

theorem madeUp_isSerializable : MadeUp (Val.isSerializable · = true) where
  int _ := rfl
  float _ := rfl
  bool _ := rfl
  str _ := rfl
  null := rfl
  instant _ _ := rfl
  plainDate _ _ := rfl
  zoned _ _ := rfl
  array items h := (areSerializable_iff items).mpr h
  record _ h := Val.fieldsSerializable_iff.mpr
    (Json.forall_distinctFields (P := (Val.isSerializable · = true)) h)

/-- A value from the wire can be sent again. -/
theorem serializable_decode (path : String) (j : Json) :
    Yields (Val.isSerializable · = true) (decode path j) :=
  madeUp_decode madeUp_isSerializable path j

theorem serializable_decodeStack (path : String) (x : Option Json) :
    Yields (Val.areSerializable · = true) (decodeStack path x) := fun vs h =>
  (areSerializable_iff vs).mpr (madeUp_decodeStack madeUp_isSerializable path x vs h)

/-! ## Well formed values -/

theorem madeUp_wellFormed : MadeUp Val.WellFormed where
  int _ := trivial
  float _ := trivial
  bool _ := trivial
  str _ := trivial
  null := trivial
  instant _ h := h
  plainDate _ h := isDateText_iff.mp h
  zoned _ _ := trivial
  array items h := (itemsWellFormed_iff items).mpr h
  record fields h := ⟨Json.nodup_distinctFields fields,
    (fieldsWellFormed_iff _).mpr (Json.forall_distinctFields (P := Val.WellFormed) h)⟩

theorem wellFormed_decodeStack (path : String) (x : Option Json) :
    Yields Val.ItemsWellFormed (decodeStack path x) := fun vs h =>
  (itemsWellFormed_iff vs).mpr (madeUp_decodeStack madeUp_wellFormed path x vs h)

/-- The values of a stack have wire forms, and decoding these gives the values again. -/
theorem decodeStack_encodeStack {path : String} {x : Option Json} {vs : List Val}
    (h : decodeStack path x = .ok vs) :
    ∃ js, encodeStack vs = .ok js ∧ ∀ path, decodeStack path (some (.arr js)) = .ok vs := by
  obtain ⟨js, hjs, back⟩ := decodeItems_encodeStack (serializable_decodeStack path x vs h)
    (wellFormed_decodeStack path x vs h)
  exact ⟨js, hjs, fun path => back path 0⟩

end Wire

end Wordstack
