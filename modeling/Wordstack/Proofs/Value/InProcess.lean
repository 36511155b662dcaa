import Wordstack.Proofs.Fault.Blame
import Wordstack.Value.Plain
import Wordstack.Wire.Encode

/-!
# Values that stay in their process

A predicate, the encoder and the conversion to plain data go through a value, each in its own way.
They agree on which values stay in their process, and on which part of such a value is named.

- **Parts** (`Val.parts`): the value and all values in it. Options are one part.
- **Judges**: a value is serializable if no part of it is in-process (`Val.isSerializable_iff`);
  the first part that is makes the other two fail (`Wire.blames_encode`, `Val.blames_toPlain`).
- **Agreement** (`serializability_agrees`).
-/

namespace Wordstack

namespace Val

mutual
/-- The value and all values in it, each before the values in it, from left to right. -/
def parts : Val → List Val
  | array items => array items :: partsOfItems items
  | record fields => record fields :: partsOfFields fields
  | v => [v]

/-- `Val.parts` of items in order. -/
def partsOfItems : List Val → List Val
  | [] => []
  | v :: vs => parts v ++ partsOfItems vs

/-- `Val.parts` of the values of fields in order. -/
def partsOfFields : List (String × Val) → List Val
  | [] => []
  | (_, v) :: vs => parts v ++ partsOfFields vs
end

mutual
theorem isSerializable_iff (v : Val) :
    v.isSerializable = true ↔ ∀ w ∈ v.parts, w.isInProcess = false := by
  match v with
  | .array items =>
    rw [isSerializable, areSerializable_iff_parts items, parts, List.forall_mem_cons]
    exact ⟨fun h => ⟨rfl, h⟩, And.right⟩
  | .record fields =>
    rw [isSerializable, fieldsSerializable_iff_parts fields, parts, List.forall_mem_cons]
    exact ⟨fun h => ⟨rfl, h⟩, And.right⟩
  | .int _ | .float _ | .bool _ | .str _ | .null | .instant _ | .plainDate _ | .zoned _ _
  | .wordRef _ | .moduleRef _ | .variableRef _ | .options _ _ =>
    simp [isSerializable, parts, isInProcess]

theorem areSerializable_iff_parts (vs : List Val) :
    areSerializable vs = true ↔ ∀ w ∈ partsOfItems vs, w.isInProcess = false := by
  match vs with
  | [] => simp [areSerializable, partsOfItems]
  | v :: vs =>
    rw [areSerializable, Bool.and_eq_true, isSerializable_iff v, areSerializable_iff_parts vs,
      partsOfItems, List.forall_mem_append]

theorem fieldsSerializable_iff_parts (fields : List (String × Val)) :
    fieldsSerializable fields = true ↔ ∀ w ∈ partsOfFields fields, w.isInProcess = false := by
  match fields with
  | [] => simp [fieldsSerializable, partsOfFields]
  | (_, v) :: rest =>
    rw [fieldsSerializable, Bool.and_eq_true, isSerializable_iff v,
      fieldsSerializable_iff_parts rest, partsOfFields, List.forall_mem_append]
end

/-- A conversion of values in order that fails at the first one that is in-process, and names its
kind. -/
abbrev Refuses {α : Type} (fault : String → Fault) (parts : List Val) (r : Except Fault α) : Prop :=
  Blames (·.isInProcess = false) (fun w f => f = fault w.kindName) parts r

/-- The fault for a value without a plain form. -/
def unplain (kind : String) : Fault := .typeError ("Cannot convert " ++ kind ++ " to a host value")

end Val

/-! ## The encoder -/

namespace Wire

mutual
/-- What keeps a value from having a wire form is its first in-process part. -/
theorem blames_encode (v : Val) :
    Val.Refuses unsendable v.parts (encode v) := by
  match v with
  | .array items => exact .cons rfl ((blames_encodeStack items).done _)
  | .record fields => exact .cons rfl ((blames_encodeFields fields).done _)
  | .int _ | .float _ | .bool _ | .str _ | .null | .instant _ | .plainDate _ | .zoned _ _ =>
    exact .cons rfl (.nil _)
  | .wordRef _ | .moduleRef _ | .variableRef _ | .options _ _ => exact .bad nofun rfl

theorem blames_encodeStack (vs : List Val) :
    Val.Refuses unsendable (Val.partsOfItems vs) (encodeStack vs) := by
  match vs with
  | [] => exact .nil _
  | v :: vs => exact (blames_encode v).bind fun _ => (blames_encodeStack vs).done _

theorem blames_encodeFields (fields : List (String × Val)) :
    Val.Refuses unsendable (Val.partsOfFields fields) (encodeFields fields) := by
  match fields with
  | [] => exact .nil _
  | (_, v) :: rest => exact (blames_encode v).bind fun _ => (blames_encodeFields rest).done _
end

end Wire

/-! ## The conversion to plain data -/

namespace Val

mutual
/-- What keeps a value from having a plain form is its first in-process part. -/
theorem blames_toPlain (v : Val) :
    Refuses unplain v.parts v.toPlain := by
  match v with
  | .array items => exact .cons rfl ((blames_toPlainItems items).done _)
  | .record fields => exact .cons rfl ((blames_toPlainFields fields).done _)
  | .int _ | .float _ | .bool _ | .str _ | .null | .instant _ | .plainDate _ | .zoned _ _ =>
    exact .cons rfl (.nil _)
  | .wordRef _ | .moduleRef _ | .variableRef _ | .options _ _ => exact .bad nofun rfl

theorem blames_toPlainItems (vs : List Val) :
    Refuses unplain (partsOfItems vs) (toPlainItems vs) := by
  match vs with
  | [] => exact .nil _
  | v :: vs => exact (blames_toPlain v).bind fun _ => (blames_toPlainItems vs).done _

theorem blames_toPlainFields (fields : List (String × Val)) :
    Refuses unplain (partsOfFields fields) (toPlainFields fields) := by
  match fields with
  | [] => exact .nil _
  | (_, v) :: rest => exact (blames_toPlain v).bind fun _ => (blames_toPlainFields rest).done _
end

end Val

/-! ## Agreement -/

/-- A value is serializable exactly if it has a wire form, and exactly if it has a plain form. The
faults of a value that is not name the kind of the same part, the first that is in-process. -/
theorem serializability_agrees (v : Val) :
    (v.isSerializable = true ↔ ∃ j, Wire.encode v = .ok j) ∧
    (v.isSerializable = true ↔ ∃ x, v.toPlain = .ok x) ∧
    (v.isSerializable = false ↔ ∃ w, FirstBad (·.isInProcess = false) v.parts w ∧
      Wire.encode v = .error (.wireFormat ("Cannot serialize " ++ w.kindName ++ " value")) ∧
      v.toPlain = .error (.typeError ("Cannot convert " ++ w.kindName ++ " to a host value"))) := by
  have hencode := Wire.blames_encode v
  have hplain := Val.blames_toPlain v
  refine ⟨v.isSerializable_iff.trans hencode.isOk_iff.symm,
    v.isSerializable_iff.trans hplain.isOk_iff.symm, ?_, ?_⟩
  · intro h
    have hbad : ¬ ∀ w ∈ v.parts, w.isInProcess = false := by
      rw [← v.isSerializable_iff, h]
      exact Bool.false_ne_true
    obtain ⟨w, _, hw, hwire, rfl⟩ := hencode.exists_error hbad
    obtain ⟨w', _, hw', hhost, rfl⟩ := hplain.exists_error hbad
    obtain rfl := hw.unique hw'
    exact ⟨w, hw, hwire, hhost⟩
  · rintro ⟨w, hw, -, -⟩
    rw [← Bool.not_eq_true, v.isSerializable_iff]
    exact hw.not_all

end Wordstack
