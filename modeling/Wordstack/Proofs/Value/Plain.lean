import Mathlib.Data.List.Nodup
import Mathlib.Data.List.Sort
import Mathlib.Tactic.Common
import Wordstack.Proofs.Binary64.Rounding
import Wordstack.Proofs.Fault.Blame
import Wordstack.Proofs.Text.Spans
import Wordstack.Proofs.Wire.Decoded
import Wordstack.Value.Plain

/-!
# Plain data and back

- **Indices** (`indexKey?_eq_some_iff`): the keys that objects take for array indices are the texts
  of the numbers below `2^32 - 1`.
- **Order** (`objectOrder`): the fields as objects list them. It is what becomes of fields with
  distinct keys (`Plain.listed_eq_objectOrder`), and goes through a change of values
  (`objectOrder_map`).
- **Normal forms** (`Val.normal`): integral numbers as integers, points in time as texts, records in
  the order of objects.
- **Conversion** (`plain_data_round_trip`): a value that becomes plain data and is read again is in
  its normal form, which a second conversion does not change.
-/

namespace Wordstack

variable {α β : Type}

/-! ## Indices -/

theorem indexKey?_eq_some {key : String} {n : Nat} :
    indexKey? key = some n ↔
      (key.toList ≠ [] ∧ key.toList.length ≤ 10 ∧ ∀ c ∈ key.toList, c.isDigit = true) ∧
      (1 < key.toList.length → key.toList.head? ≠ some '0') ∧
      Text.digitsToNat key.toList < 4294967295 ∧ Text.digitsToNat key.toList = n := by
  have hunfold : indexKey? key =
      if key.toList.isEmpty || key.toList.length > 10 || !key.toList.all Char.isDigit then none
      else if key.toList.length > 1 && key.toList.head? == some '0' then none
      else if Text.digitsToNat key.toList < 4294967295 then some (Text.digitsToNat key.toList)
      else none := rfl
  rw [hunfold, Option.ite_none_left_eq_some, Option.ite_none_left_eq_some,
    Option.ite_none_right_eq_some]
  simp [and_assoc]

/-- A key is an array index if and only if it is the text of a number below `2^32 - 1`. -/
theorem indexKey?_eq_some_iff {key : String} {n : Nat} :
    indexKey? key = some n ↔ key = toString n ∧ n < 4294967295 := by
  rw [indexKey?_eq_some]
  constructor
  · rintro ⟨⟨hne, -, hdigits⟩, hzero, hlimit, rfl⟩
    refine ⟨String.toList_inj.mp ?_, hlimit⟩
    obtain ⟨c, cs, hcs⟩ := List.exists_cons_of_ne_nil hne
    rw [hcs] at hdigits hzero ⊢
    obtain ⟨hc, htail⟩ := List.forall_mem_cons.mp hdigits
    have hlead : c = '0' → cs = [] := by
      rintro rfl
      by_contra hcs
      exact hzero (by simpa using List.length_pos_iff.mpr hcs) rfl
    exact (Text.toDigits_digitsToNat hc htail hlead).symm.trans Nat.toList_repr.symm
  · rintro ⟨rfl, hlimit⟩
    have hchars : (toString n).toList = Nat.toDigits 10 n := Nat.toList_repr
    rw [hchars, Text.digitsToNat_toDigits]
    refine ⟨⟨Nat.toDigits_ne_nil, ?_, ?_⟩, fun hlong hhead => ?_, hlimit, rfl⟩
    · exact (Nat.length_toDigits_le_iff (by decide) (by decide)).mpr (by omega)
    · exact fun c hc => Nat.isDigit_of_mem_toDigits (by decide) (by decide) hc
    · rw [Text.eq_zero_of_head?_toDigits hhead] at hlong
      exact absurd hlong (by decide)

theorem indexKey?_injective {k l : String} {n : Nat} (hk : indexKey? k = some n)
    (hl : indexKey? l = some n) : k = l :=
  (indexKey?_eq_some_iff.mp hk).1.trans (indexKey?_eq_some_iff.mp hl).1.symm

/-! ## Order -/

/-- The field stands no later than another one, if both keys are indices. -/
def indexLe (e f : String × α) : Bool :=
  decide ((indexKey? e.1).getD 0 ≤ (indexKey? f.1).getD 0)

/-- The fields as objects list them: keys that are array indices first, ascending, then the others
as they stand. -/
def objectOrder (fields : List (String × α)) : List (String × α) :=
  (fields.filter fun e => (indexKey? e.1).isSome).mergeSort indexLe ++
    fields.filter fun e => (indexKey? e.1).isNone

theorem pairwise_mergeSort_indexLe (fields : List (String × α)) :
    (fields.mergeSort indexLe).Pairwise fun e f => indexLe e f = true := by
  refine List.pairwise_mergeSort (fun e f g hef hfg => ?_) (fun e f => ?_) fields
  · simp only [indexLe, decide_eq_true_eq] at hef hfg ⊢
    exact hef.trans hfg
  · simpa [indexLe] using Nat.le_total _ _

theorem objectOrder_perm (fields : List (String × α)) : (objectOrder fields).Perm fields := by
  have hrest : (fields.filter fun e => (indexKey? e.1).isNone) =
      fields.filter fun e => !(indexKey? e.1).isSome := by simp
  rw [objectOrder, hrest]
  exact ((List.mergeSort_perm _ _).append_right _).trans (List.filter_append_perm _ fields)

/-- The order of fields depends on their keys alone. -/
theorem objectOrder_map (f : String × α → β) (fields : List (String × α)) :
    objectOrder (fields.map fun e => (e.1, f e)) =
      (objectOrder fields).map fun e => (e.1, f e) := by
  rw [objectOrder, objectOrder, List.map_append, List.filter_map, List.filter_map,
    List.map_mergeSort]
  · rfl
  · exact fun _ _ _ _ => rfl

theorem objectOrder_objectOrder (fields : List (String × α)) :
    objectOrder (objectOrder fields) = objectOrder fields := by
  generalize hs : (fields.filter fun e => (indexKey? e.1).isSome).mergeSort indexLe = sorted
  have hsorted : ∀ e ∈ sorted, (indexKey? e.1).isSome = true := by
    intro e he
    rw [← hs, List.mem_mergeSort] at he
    exact (List.mem_filter.mp he).2
  have hindices : (objectOrder fields).filter (fun e => (indexKey? e.1).isSome) = sorted := by
    rw [objectOrder, hs, List.filter_append, List.filter_eq_self.mpr hsorted,
      List.filter_eq_nil_iff.mpr, List.append_nil]
    intro e he
    rw [Option.isNone_iff_eq_none.mp (List.mem_filter.mp he).2]
    exact Bool.false_ne_true
  have hothers : (objectOrder fields).filter (fun e => (indexKey? e.1).isNone) =
      fields.filter fun e => (indexKey? e.1).isNone := by
    rw [objectOrder, hs, List.filter_append, List.filter_eq_nil_iff.mpr, List.nil_append,
      List.filter_filter]
    · simp
    · intro e he
      rw [← Option.not_isSome, hsorted e he]
      exact Bool.false_ne_true
  have hself : sorted.mergeSort indexLe = sorted :=
    List.mergeSort_of_pairwise (hs ▸ pairwise_mergeSort_indexLe _)
  rw [objectOrder, hindices, hothers, hself, objectOrder, hs]

theorem pairwise_insertByIndex {x : Nat × String × α} {xs : List (Nat × String × α)}
    (h : xs.Pairwise fun y z => y.1 ≤ z.1) :
    (insertByIndex x xs).Pairwise fun y z => y.1 ≤ z.1 := by
  induction xs with
  | nil => exact List.pairwise_singleton _ x
  | cons y ys ih =>
    obtain ⟨hy, hys⟩ := List.pairwise_cons.mp h
    unfold insertByIndex
    split
    case isTrue hlt =>
      refine List.pairwise_cons.mpr ⟨fun z hz => ?_, h⟩
      obtain rfl | hz := List.mem_cons.mp hz
      · exact hlt.le
      · exact hlt.le.trans (hy z hz)
    case isFalse hge =>
      refine List.pairwise_cons.mpr ⟨fun z hz => ?_, ih hys⟩
      obtain rfl | hz := List.mem_cons.mp ((insertByIndex_perm x ys).mem_iff.mp hz)
      · exact Nat.le_of_not_lt hge
      · exact hy z hz

/-- Fields with distinct keys are inserted where sorting puts them. -/
theorem indexedFirst_eq_objectOrder {fields : List (String × α)} (h : (fields.map (·.1)).Nodup) :
    indexedFirst fields = objectOrder fields := by
  unfold indexedFirst objectOrder
  dsimp only
  generalize hx : (fields.filterMap fun e => (indexKey? e.1).map fun n => (n, e)) = indexed
  generalize hs : indexed.foldl (fun acc x => insertByIndex x acc) [] = sorted
  congr 1
  have hperm : sorted.Perm indexed := hs ▸ foldl_insertByIndex_perm indexed []
  have hindex : ∀ x ∈ sorted, indexKey? x.2.1 = some x.1 := by
    intro x hmem
    rw [hperm.mem_iff, ← hx] at hmem
    obtain ⟨e, -, hsome⟩ := List.mem_filterMap.mp hmem
    obtain ⟨n, hn, rfl⟩ := Option.map_eq_some_iff.mp hsome
    exact hn
  have hfields : (sorted.map (·.2)).Perm (fields.filter fun e => (indexKey? e.1).isSome) := by
    refine (hperm.map _).trans (.of_eq ?_)
    rw [← hx, List.map_filterMap, ← List.filterMap_eq_filter]
    refine List.filterMap_congr fun e _ => ?_
    cases h : indexKey? e.1 <;> simp [h, Option.guard]
  have hpairwise : (sorted.map (·.2)).Pairwise fun e f => indexLe e f = true := by
    have hsorted : sorted.Pairwise fun y z => y.1 ≤ z.1 := by
      rw [← hs]
      exact List.foldlRecOn (motive := fun acc : List (Nat × String × α) =>
        acc.Pairwise fun y z => y.1 ≤ z.1) indexed _ .nil fun _ hacc _ _ =>
          pairwise_insertByIndex hacc
    refine List.pairwise_map.mpr (hsorted.imp_of_mem fun {y z} hy hz hle => ?_)
    simpa [indexLe, hindex y hy, hindex z hz] using hle
  refine List.Perm.eq_of_pairwise (fun e f he hf hef hfe => ?_) hpairwise
    (pairwise_mergeSort_indexLe _) (hfields.trans (List.mergeSort_perm _ _).symm)
  -- two fields with the same index have the same key
  obtain ⟨hemem, hesome⟩ := List.mem_filter.mp (hfields.mem_iff.mp he)
  obtain ⟨hfmem, hfsome⟩ := List.mem_filter.mp (List.mem_mergeSort.mp hf)
  obtain ⟨m, hm⟩ := Option.isSome_iff_exists.mp hesome
  obtain ⟨n, hn⟩ := Option.isSome_iff_exists.mp hfsome
  simp only [indexLe, hm, hn, Option.getD_some, decide_eq_true_eq] at hef hfe
  obtain rfl := Nat.le_antisymm hef hfe
  exact List.inj_on_of_nodup_map h hemem hfmem (indexKey?_injective hm hn)

/-- What an object lists of fields with distinct keys. -/
theorem Plain.listed_eq_objectOrder {fields : List (String × α)} (h : (fields.map (·.1)).Nodup)
    (hp : ∀ e ∈ fields, e.1 ≠ "__proto__") : Plain.listed fields = objectOrder fields := by
  have hall : fields.filter (fun e => e.1 != "__proto__") = fields :=
    List.filter_eq_self.mpr fun e he => bne_iff_ne.mpr (hp e he)
  rw [Plain.listed, hall, Json.distinctFields_of_nodup h, indexedFirst_eq_objectOrder h]

namespace Val

/-! ## Normal forms -/

mutual
/-- The value that is left after a conversion to plain data and back. -/
def normal : Val → Val
  | float x => match x.toInt? with
    | some n => int n
    | none => float x
  | array items => array (normalItems items)
  | record fields => record (objectOrder (normalFields fields))
  | instant iso => str iso
  | plainDate iso => str iso
  | zoned iso _ => str iso
  | v => v

/-- `Val.normal` of items. -/
def normalItems : List Val → List Val
  | [] => []
  | v :: vs => normal v :: normalItems vs

/-- `Val.normal` of the values of fields. -/
def normalFields : List (String × Val) → List (String × Val)
  | [] => []
  | (k, v) :: fields => (k, normal v) :: normalFields fields
end

theorem normalFields_eq_map (fields : List (String × Val)) :
    normalFields fields = fields.map fun e => (e.1, e.2.normal) := by
  induction fields with
  | nil => rfl
  | cons e fields ih => rw [normalFields, ih, List.map_cons]

mutual
theorem normal_normal (v : Val) : v.normal.normal = v.normal := by
  match v with
  | .float x =>
    rw [normal]
    split
    case h_1 => rfl
    case h_2 h => rw [normal, h]
  | .array items => rw [normal, normal, normalItems_normalItems items]
  | .record fields =>
    rw [normal, normal, normalFields_eq_map (objectOrder _), ← objectOrder_map,
      ← normalFields_eq_map, normalFields_normalFields fields, objectOrder_objectOrder]
  | .int _ | .bool _ | .str _ | .null | .instant _ | .plainDate _ | .zoned _ _
  | .wordRef _ | .moduleRef _ | .variableRef _ | .options _ _ => rfl

theorem normalItems_normalItems (items : List Val) :
    normalItems (normalItems items) = normalItems items := by
  match items with
  | [] => rfl
  | v :: vs => rw [normalItems, normalItems, normal_normal v, normalItems_normalItems vs]

theorem normalFields_normalFields (fields : List (String × Val)) :
    normalFields (normalFields fields) = normalFields fields := by
  match fields with
  | [] => rfl
  | (_, v) :: fields =>
    rw [normalFields, normalFields, normal_normal v, normalFields_normalFields fields]
end

/-! ## Records that objects hold -/

mutual
/-- Each key of a record stands once in it and names an entry of an object. -/
def HasObjectKeys : Val → Prop
  | array items => ItemsHaveObjectKeys items
  | record fields =>
    (fields.map (·.1)).Nodup ∧ (∀ e ∈ fields, e.1 ≠ "__proto__") ∧ FieldsHaveObjectKeys fields
  | _ => True

/-- `Val.HasObjectKeys` of every item. -/
def ItemsHaveObjectKeys : List Val → Prop
  | [] => True
  | v :: vs => HasObjectKeys v ∧ ItemsHaveObjectKeys vs

/-- `Val.HasObjectKeys` of the value of every field. -/
def FieldsHaveObjectKeys : List (String × Val) → Prop
  | [] => True
  | (_, v) :: fields => HasObjectKeys v ∧ FieldsHaveObjectKeys fields
end

theorem fieldsHaveObjectKeys_iff {fields : List (String × Val)} :
    FieldsHaveObjectKeys fields ↔ ∀ e ∈ fields, e.2.HasObjectKeys := by
  induction fields with
  | nil => simp [FieldsHaveObjectKeys]
  | cons e fields ih => simp [FieldsHaveObjectKeys, ih]

mutual
theorem isSerializable_normal (v : Val) : v.normal.isSerializable = v.isSerializable := by
  match v with
  | .float x =>
    rw [normal]
    split <;> rfl
  | .array items => rw [normal, isSerializable, isSerializable, areSerializable_normal items]
  | .record fields =>
    rw [normal, isSerializable, isSerializable, ← fieldsSerializable_normal fields, Bool.eq_iff_iff,
      fieldsSerializable_iff, fieldsSerializable_iff]
    exact forall_congr' fun e => by rw [(objectOrder_perm _).mem_iff]
  | .int _ | .bool _ | .str _ | .null | .instant _ | .plainDate _ | .zoned _ _
  | .wordRef _ | .moduleRef _ | .variableRef _ | .options _ _ => rfl

theorem areSerializable_normal (items : List Val) :
    areSerializable (normalItems items) = areSerializable items := by
  match items with
  | [] => rfl
  | v :: vs =>
    rw [normalItems, areSerializable, areSerializable, isSerializable_normal v,
      areSerializable_normal vs]

theorem fieldsSerializable_normal (fields : List (String × Val)) :
    fieldsSerializable (normalFields fields) = fieldsSerializable fields := by
  match fields with
  | [] => rfl
  | (_, v) :: fields =>
    rw [normalFields, fieldsSerializable, fieldsSerializable, isSerializable_normal v,
      fieldsSerializable_normal fields]
end

mutual
theorem HasObjectKeys.normal {v : Val} (h : v.HasObjectKeys) : v.normal.HasObjectKeys := by
  match v with
  | .float x =>
    rw [Val.normal]
    split <;> trivial
  | .array items =>
    rw [HasObjectKeys] at h
    rw [Val.normal, HasObjectKeys]
    exact ItemsHaveObjectKeys.normal h
  | .record fields =>
    rw [HasObjectKeys] at h
    obtain ⟨hnodup, hproto, hvalues⟩ := h
    have hkeys : (normalFields fields).map (·.1) = fields.map (·.1) := by
      rw [normalFields_eq_map, List.map_map]
      rfl
    have hperm := objectOrder_perm (normalFields fields)
    rw [Val.normal, HasObjectKeys]
    refine ⟨?_, fun e he => ?_, ?_⟩
    · rw [(hperm.map _).nodup_iff, hkeys]
      exact hnodup
    · have hmem : e.1 ∈ fields.map (·.1) := by
        rw [← hkeys]
        exact List.mem_map_of_mem (hperm.mem_iff.mp he)
      obtain ⟨f, hf, hkey⟩ := List.mem_map.mp hmem
      exact hkey ▸ hproto f hf
    · rw [fieldsHaveObjectKeys_iff]
      intro e he
      exact fieldsHaveObjectKeys_iff.mp (FieldsHaveObjectKeys.normal hvalues) e
        (hperm.mem_iff.mp he)
  | .int _ | .bool _ | .str _ | .null | .instant _ | .plainDate _ | .zoned _ _
  | .wordRef _ | .moduleRef _ | .variableRef _ | .options _ _ => trivial

theorem ItemsHaveObjectKeys.normal {items : List Val} (h : ItemsHaveObjectKeys items) :
    ItemsHaveObjectKeys (normalItems items) := by
  match items with
  | [] => trivial
  | v :: vs => exact ⟨h.1.normal, ItemsHaveObjectKeys.normal h.2⟩

theorem FieldsHaveObjectKeys.normal {fields : List (String × Val)}
    (h : FieldsHaveObjectKeys fields) : FieldsHaveObjectKeys (normalFields fields) := by
  match fields with
  | [] => trivial
  | (_, v) :: fields => exact ⟨h.1.normal, FieldsHaveObjectKeys.normal h.2⟩
end

/-! ## Conversion -/

/-- The value becomes plain data that is read as its normal form. -/
def Settles (v : Val) : Prop := ∃ x, v.toPlain = .ok x ∧ ofPlain x = .ok v.normal

/-- An integer becomes a number if the number nearest to it is a safe integer. -/
theorem toPlain_int (n : Int) : (int n).toPlain = .ok
    (if (Binary64.ofInt n).toSafeInt?.isSome then .num (Binary64.ofInt n) else .big n) := by
  rw [toPlain, Binary64.toSafeInt?_ofInt]
  split <;> rfl

/-- No integer is rounded. -/
theorem settles_int (n : Int) : (int n).Settles := by
  refine ⟨_, toPlain_int n, ?_⟩
  rw [Binary64.toSafeInt?_ofInt]
  by_cases hsafe : n.natAbs ≤ Binary64.safeLimit
  · rw [if_pos hsafe, Option.isSome_some, if_pos rfl, ofPlain, Binary64.toInt?_ofInt hsafe]
    rfl
  · rw [if_neg hsafe]
    rfl

theorem toPlainFields_of_forall {fields : List (String × Val)} {g : String × Val → Plain}
    (h : ∀ e ∈ fields, e.2.toPlain = .ok (g e)) :
    toPlainFields fields = .ok (fields.map fun e => (e.1, g e)) := by
  induction fields with
  | nil => rfl
  | cons e fields ih =>
    obtain ⟨he, hfields⟩ := List.forall_mem_cons.mp h
    rw [toPlainFields, he, ih hfields]
    rfl

theorem ofPlainFields_of_forall {fields : List (String × Val)} {g : String × Val → Plain}
    (h : ∀ e ∈ fields, ofPlain (g e) = .ok e.2.normal) :
    ofPlainFields (fields.map fun e => (e.1, g e)) =
      .ok (fields.map fun e => (e.1, e.2.normal)) := by
  induction fields with
  | nil => rfl
  | cons e fields ih =>
    obtain ⟨he, hfields⟩ := List.forall_mem_cons.mp h
    rw [List.map_cons, ofPlainFields, he, ih hfields]
    rfl

/-- The fields of a record are read in the order in which the object lists them. -/
theorem settles_record {fields : List (String × Val)} (hn : (fields.map (·.1)).Nodup)
    (hp : ∀ e ∈ fields, e.1 ≠ "__proto__") (h : ∀ e ∈ fields, e.2.Settles) :
    (record fields).Settles := by
  choose! g hto hof using h
  have hkeys : ((fields.map fun e => (e.1, g e)).map (·.1)) = fields.map (·.1) := by
    rw [List.map_map]
    rfl
  have hplain : ∀ e ∈ fields.map fun e => (e.1, g e), e.1 ≠ "__proto__" := by
    rw [List.forall_mem_map]
    exact hp
  refine ⟨.object ((objectOrder fields).map fun e => (e.1, g e)), ?_, ?_⟩
  · rw [toPlain, toPlainFields_of_forall hto, ← objectOrder_map,
      ← Plain.listed_eq_objectOrder (hkeys ▸ hn) hplain]
    rfl
  · rw [ofPlain, ofPlainFields_of_forall fun e he => hof e ((objectOrder_perm _).mem_iff.mp he),
      normal, normalFields_eq_map, objectOrder_map]
    rfl

theorem settles_float (x : Binary64) : (float x).Settles := by
  refine ⟨.num x, rfl, ?_⟩
  unfold ofPlain normal
  cases x.toInt? <;> rfl

mutual
theorem settles {v : Val} (hs : v.isSerializable = true) (hk : v.HasObjectKeys) : v.Settles := by
  match v with
  | .int n => exact settles_int n
  | .float x => exact settles_float x
  | .array items =>
    rw [isSerializable] at hs
    rw [HasObjectKeys] at hk
    obtain ⟨xs, hto, hof⟩ := settles_items hs hk
    exact ⟨.list xs, by rw [toPlain, hto]; rfl, by rw [ofPlain, hof]; rfl⟩
  | .record fields =>
    rw [isSerializable] at hs
    rw [HasObjectKeys] at hk
    exact settles_record hk.1 hk.2.1 (settles_fields hs hk.2.2)
  | .bool _ | .str _ | .null | .instant _ | .plainDate _ | .zoned _ _ => exact ⟨_, rfl, rfl⟩
  | .wordRef _ | .moduleRef _ | .variableRef _ | .options _ _ => cases hs

theorem settles_items {items : List Val} (hs : areSerializable items = true)
    (hk : ItemsHaveObjectKeys items) :
    ∃ xs, toPlainItems items = .ok xs ∧ ofPlainItems xs = .ok (normalItems items) := by
  match items with
  | [] => exact ⟨[], rfl, rfl⟩
  | v :: vs =>
    rw [areSerializable, Bool.and_eq_true] at hs
    obtain ⟨x, hto, hof⟩ := settles hs.1 hk.1
    obtain ⟨xs, htos, hofs⟩ := settles_items hs.2 hk.2
    refine ⟨x :: xs, ?_, ?_⟩
    · rw [toPlainItems, hto, htos]
      rfl
    · rw [ofPlainItems, hof, hofs, normalItems]
      rfl

theorem settles_fields {fields : List (String × Val)} (hs : fieldsSerializable fields = true)
    (hk : FieldsHaveObjectKeys fields) : ∀ e ∈ fields, e.2.Settles := by
  match fields with
  | [] => exact List.forall_mem_nil _
  | (_, v) :: fields =>
    rw [fieldsSerializable, Bool.and_eq_true] at hs
    exact List.forall_mem_cons.mpr ⟨settles hs.1 hk.1, settles_fields hs.2 hk.2⟩
end

end Val

/-- A serializable value whose records have keys that objects take becomes plain data, and that is
read as the normal form of the value. The normal form is its own normal form, and is read as itself
when it is converted again. -/
theorem plain_data_round_trip {v : Val} (hs : v.isSerializable = true) (hk : v.HasObjectKeys) :
    (∃ x, v.toPlain = .ok x ∧ Val.ofPlain x = .ok v.normal) ∧
      v.normal.normal = v.normal ∧
        ∃ x, v.normal.toPlain = .ok x ∧ Val.ofPlain x = .ok v.normal := by
  refine ⟨Val.settles hs hk, v.normal_normal, ?_⟩
  have hagain := Val.settles (v.isSerializable_normal.trans hs) hk.normal
  rwa [Val.Settles, v.normal_normal] at hagain

/-- A record with two indices as keys, with the least integer beyond the safe ones and with integral
numbers, one of them large and one a negative zero. -/
theorem plain_data_round_trip_indices :
    let v : Val := .record [("b", .int 9007199254740992),
      ("10", .float (Binary64.ofInt 1000000000000000000000)),
      ("2", .array [.int (-9007199254740991), .float (.zero true), .float .nan,
        .plainDate "2024-02-29"])]
    v.isSerializable = true ∧ v.HasObjectKeys ∧
      ∃ x, v.toPlain = .ok x ∧ Val.ofPlain x = .ok (.record [
        ("2", .array [.int (-9007199254740991), .int 0, .float .nan, .str "2024-02-29"]),
        ("10", .int 1000000000000000000000), ("b", .int 9007199254740992)]) := by
  intro v
  have hs : v.isSerializable = true := rfl
  have hk : v.HasObjectKeys := by
    simp [v, Val.HasObjectKeys, Val.FieldsHaveObjectKeys, Val.ItemsHaveObjectKeys]
  obtain ⟨x, hto, hof⟩ := (plain_data_round_trip hs hk).1
  refine ⟨hs, hk, x, hto, hof.trans (congrArg Except.ok ?_)⟩
  have hten : indexKey? "10" = some 10 := by decide
  have htwo : indexKey? "2" = some 2 := by decide
  have hb : indexKey? "b" = none := by decide
  have hlarge : (Binary64.ofInt 1000000000000000000000).toInt? = some 1000000000000000000000 := by
    decide +kernel
  have hzero : (Binary64.zero true).toInt? = some 0 := by decide +kernel
  simp only [v, Val.normal, Val.normalFields, Val.normalItems, hlarge, hzero]
  simp [objectOrder, hten, htwo, hb, List.mergeSort, indexLe]
  rfl

end Wordstack
