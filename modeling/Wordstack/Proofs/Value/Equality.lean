import Mathlib.Data.List.Forall2
import Wordstack.Proofs.Wire.Sent

/-!
# Equality of values is an equivalence

- **What equality compares** (`Val.eqForm`): the value without the signs of its zeros, without the
  names of references and without the entries of options. Two values are equal if and only if they
  have the same such form (`Val.equal_iff_eqForm_eq`).
- **Records** (`Val.equal_record_iff`): comparing fields one by one is the same as looking for the
  key of each field in its place, and for its value under that key.
- **Equivalence** (`equality_is_equivalence`).
-/

namespace Wordstack

/-- Numbers are equal, or both not-a-number, if and only if nothing but the sign of zero tells them
apart. -/
theorem Binary64.eq_iff_unsigned_eq {x y : Binary64} :
    (x.eq y || (x.isNaN && y.isNaN)) = true ↔ Val.unsignedFloat x = Val.unsignedFloat y := by
  refine ⟨fun h => ?_, eq_of_unsigned_eq⟩
  rw [Bool.or_eq_true] at h
  obtain heq | hnan := h
  · have hcases : x = y ∨ x.isZero = true ∧ y.isZero = true := by
      cases x <;> cases y <;> simp_all [eq]
    obtain rfl | ⟨hx, hy⟩ := hcases
    · rfl
    · rw [unsignedFloat_of_isZero hx, unsignedFloat_of_isZero hy]
  · cases x <;> cases y <;> simp_all [isNaN]

namespace Val

/-! ## What equality compares -/

mutual
/-- The value with the positive zero for either zero, and with nothing but their identity for values
of one process. -/
def eqForm : Val → Val
  | float x => float (unsignedFloat x)
  | array items => array (eqFormItems items)
  | record fields => record (eqFormFields fields)
  | wordRef ref => wordRef ⟨ref.id, ""⟩
  | moduleRef ref => moduleRef ⟨ref.id, ""⟩
  | variableRef ref => variableRef ⟨ref.id, ""⟩
  | options id _ => options id []
  | v => v

/-- `Val.eqForm` of items. -/
def eqFormItems : List Val → List Val
  | [] => []
  | v :: vs => eqForm v :: eqFormItems vs

/-- `Val.eqForm` of the values of fields. -/
def eqFormFields : List (String × Val) → List (String × Val)
  | [] => []
  | (k, v) :: fields => (k, eqForm v) :: eqFormFields fields
end

@[simp] theorem kindName_eqForm (v : Val) : v.eqForm.kindName = v.kindName := by
  cases v <;> rfl

mutual
/-- Equality compares the forms of values and nothing else. -/
theorem equal_iff_eqForm_eq (v w : Val) : v.equal w = true ↔ v.eqForm = w.eqForm := by
  cases v with
  | float x =>
    cases w <;> simp only [equal, eqForm, reduceCtorEq, float.injEq]
    exact Binary64.eq_iff_unsigned_eq
  | array vs =>
    cases w <;> simp only [equal, eqForm, reduceCtorEq, array.injEq]
    exact equalItems_iff_eqForm_eq vs _
  | record fs =>
    cases w <;> simp only [equal, eqForm, reduceCtorEq, record.injEq]
    exact equalFields_iff_eqForm_eq fs _
  | _ => cases w <;> simp [equal, eqForm]

theorem equalItems_iff_eqForm_eq (vs ws : List Val) :
    equalItems vs ws = true ↔ eqFormItems vs = eqFormItems ws := by
  match vs, ws with
  | [], [] => simp [equalItems]
  | [], _ :: _ => simp [equalItems, eqFormItems]
  | _ :: _, [] => simp [equalItems, eqFormItems]
  | v :: vs, w :: ws =>
    rw [equalItems, Bool.and_eq_true, equal_iff_eqForm_eq v w, equalItems_iff_eqForm_eq vs ws,
      eqFormItems, eqFormItems, List.cons.injEq]

theorem equalFields_iff_eqForm_eq (fs gs : List (String × Val)) :
    equalFields fs gs = true ↔ eqFormFields fs = eqFormFields gs := by
  match fs, gs with
  | [], [] => simp [equalFields]
  | [], (_, _) :: _ => simp [equalFields, eqFormFields]
  | (_, _) :: _, [] => simp [equalFields, eqFormFields]
  | (k, v) :: fs, (l, w) :: gs =>
    rw [equalFields, Bool.and_eq_true, Bool.and_eq_true, beq_iff_eq, equal_iff_eqForm_eq v w,
      equalFields_iff_eqForm_eq fs gs, eqFormFields, eqFormFields, List.cons.injEq, Prod.mk.injEq]
end

theorem equal_equivalence : Equivalence fun v w : Val => v.equal w = true where
  refl v := (equal_iff_eqForm_eq v v).mpr rfl
  symm {v w} h := (equal_iff_eqForm_eq w v).mpr ((equal_iff_eqForm_eq v w).mp h).symm
  trans {u v w} h h' := (equal_iff_eqForm_eq u w).mpr
    (((equal_iff_eqForm_eq u v).mp h).trans ((equal_iff_eqForm_eq v w).mp h'))

/-! ## What equality keeps -/

theorem isTruthy_eqForm (v : Val) : v.eqForm.isTruthy = v.isTruthy := by
  cases v with
  | float x =>
    have hzero : (unsignedFloat x).isZero = x.isZero := by
      unfold unsignedFloat
      split
      case isTrue hx => exact (Binary64.isZero_of_isNegativeZero hx).symm
      case isFalse => rfl
    rw [eqForm, isTruthy, isTruthy, hzero]
  | array vs => cases vs <;> rfl
  | _ => rfl

mutual
theorem isSerializable_eqForm (v : Val) : v.eqForm.isSerializable = v.isSerializable := by
  match v with
  | .array vs => rw [eqForm, isSerializable, isSerializable, areSerializable_eqForm vs]
  | .record fs => rw [eqForm, isSerializable, isSerializable, fieldsSerializable_eqForm fs]
  | .int _ | .float _ | .bool _ | .str _ | .null | .instant _ | .plainDate _ | .zoned _ _
  | .wordRef _ | .moduleRef _ | .variableRef _ | .options _ _ => rfl

theorem areSerializable_eqForm (vs : List Val) :
    areSerializable (eqFormItems vs) = areSerializable vs := by
  match vs with
  | [] => rfl
  | v :: vs =>
    rw [eqFormItems, areSerializable, areSerializable, isSerializable_eqForm v,
      areSerializable_eqForm vs]

theorem fieldsSerializable_eqForm (fs : List (String × Val)) :
    fieldsSerializable (eqFormFields fs) = fieldsSerializable fs := by
  match fs with
  | [] => rfl
  | (_, v) :: fs =>
    rw [eqFormFields, fieldsSerializable, fieldsSerializable, isSerializable_eqForm v,
      fieldsSerializable_eqForm fs]
end

mutual
/-- A copy is the same value: what is built anew has no identity. -/
theorem copy_eq (v : Val) : v.copy = v := by
  match v with
  | .array vs => rw [copy, copyItems_eq vs]
  | .record fs => rw [copy, copyFields_eq fs]
  | .int _ | .float _ | .bool _ | .str _ | .null | .instant _ | .plainDate _ | .zoned _ _
  | .wordRef _ | .moduleRef _ | .variableRef _ | .options _ _ => rfl

theorem copyItems_eq (vs : List Val) : copyItems vs = vs := by
  match vs with
  | [] => rfl
  | v :: vs => rw [copyItems, copy_eq v, copyItems_eq vs]

theorem copyFields_eq (fs : List (String × Val)) : copyFields fs = fs := by
  match fs with
  | [] => rfl
  | (_, v) :: fs => rw [copyFields, copy_eq v, copyFields_eq fs]
end

/-! ## Items and fields -/

theorem equalItems_iff_forall₂ {vs ws : List Val} :
    equalItems vs ws = true ↔ List.Forall₂ (fun v w => v.equal w = true) vs ws := by
  match vs, ws with
  | [], [] => simp [equalItems]
  | [], _ :: _ => simp [equalItems]
  | _ :: _, [] => simp [equalItems]
  | v :: vs, w :: ws =>
    rw [equalItems, Bool.and_eq_true, equalItems_iff_forall₂, List.forall₂_cons]

theorem equalFields_iff_forall₂ {fs gs : List (String × Val)} :
    equalFields fs gs = true ↔
      List.Forall₂ (fun f g => f.1 = g.1 ∧ f.2.equal g.2 = true) fs gs := by
  match fs, gs with
  | [], [] => simp [equalFields]
  | [], (_, _) :: _ => simp [equalFields]
  | (_, _) :: _, [] => simp [equalFields]
  | (k, v) :: fs, (l, w) :: gs =>
    rw [equalFields, Bool.and_eq_true, Bool.and_eq_true, beq_iff_eq, equalFields_iff_forall₂,
      List.forall₂_cons]

/-- Under a key that stands once, the value is that of the field with the key. -/
theorem lookup_of_getElem? {gs : List (String × Val)} (h : (gs.map (·.1)).Nodup) {i : Nat}
    {key : String} {w : Val} (hi : gs[i]? = some (key, w)) : gs.lookup key = some w := by
  induction gs generalizing i with
  | nil => simp at hi
  | cons g gs ih =>
    obtain ⟨hg, hrest⟩ := List.nodup_cons.mp h
    cases i with
    | zero =>
      obtain rfl : g = (key, w) := by simpa using hi
      exact List.lookup_cons_self
    | succ i =>
      rw [List.getElem?_cons_succ] at hi
      have hne : key ≠ g.1 := by
        rintro rfl
        exact hg (List.mem_map.mpr ⟨_, List.mem_of_getElem? hi, rfl⟩)
      rw [List.lookup_cons, beq_false_of_ne hne]
      exact ih hrest hi

/-- The fields of a record are compared by place. If each key stands once in the other record, that
is the same as looking for each key in its place there, and for its value under the key. -/
theorem equal_record_iff {fs gs : List (String × Val)} (h : (gs.map (·.1)).Nodup) :
    (record fs).equal (record gs) = true ↔
      fs.length = gs.length ∧ ∀ (i : Nat) key v, fs[i]? = some (key, v) →
        (gs.map (·.1))[i]? = some key ∧ ∃ w, gs.lookup key = some w ∧ v.equal w = true := by
  rw [equal, equalFields_iff_forall₂, List.forall₂_iff_get]
  refine and_congr_right fun hlen => ⟨fun hall i key v hi => ?_, fun hall i hi hi' => ?_⟩
  · obtain ⟨hlt, hfield⟩ := List.getElem?_eq_some_iff.mp hi
    have hlt' : i < gs.length := hlen ▸ hlt
    obtain ⟨hkey, hvalue⟩ := hall i hlt hlt'
    rw [List.get_eq_getElem, List.get_eq_getElem, hfield] at hkey hvalue
    have hother : gs[i]? = some (key, gs[i].2) := by
      rw [List.getElem?_eq_getElem hlt', Option.some.injEq]
      exact Prod.ext hkey.symm rfl
    exact ⟨by simp [hother], gs[i].2, lookup_of_getElem? h hother, hvalue⟩
  · obtain ⟨hkey, w, hlookup, hvalue⟩ := hall i fs[i].1 fs[i].2 (List.getElem?_eq_getElem hi)
    have hkey' : fs[i].1 = gs[i].1 := by
      simpa [List.getElem?_eq_getElem hi', eq_comm] using hkey
    have hother : gs.lookup gs[i].1 = some gs[i].2 :=
      lookup_of_getElem? h (List.getElem?_eq_getElem hi')
    rw [← hkey', hlookup] at hother
    exact ⟨hkey', Option.some.inj hother ▸ hvalue⟩

end Val

/-- Equality of values is an equivalence, whatever is in them. Equal values have the same kind and
are alike true or false and serializable or not, and a value is equal to a copy of any value that it
is equal to. -/
theorem equality_is_equivalence :
    (Equivalence fun v w : Val => v.equal w = true) ∧
      ∀ v w : Val, v.equal w = true →
        v.kindName = w.kindName ∧ v.isTruthy = w.isTruthy ∧
          v.isSerializable = w.isSerializable ∧ v.equal w.copy = true := by
  refine ⟨Val.equal_equivalence, fun v w h => ?_⟩
  have hform := (Val.equal_iff_eqForm_eq v w).mp h
  refine ⟨?_, ?_, ?_, by rwa [w.copy_eq]⟩
  · rw [← v.kindName_eqForm, hform, w.kindName_eqForm]
  · rw [← v.isTruthy_eqForm, hform, w.isTruthy_eqForm]
  · rw [← v.isSerializable_eqForm, hform, w.isSerializable_eqForm]

/-- A record that holds not-a-number and the negative zero is equal to the one with the other
zero. -/
theorem equality_is_equivalence_zeros :
    let v : Val := .record [("x", .array [.float .nan, .float (.zero true)])]
    let w : Val := .record [("x", .array [.float .nan, .float (.zero false)])]
    v.equal w = true ∧ w.equal v = true ∧ v.isTruthy = w.isTruthy ∧ v.equal w.copy = true := by
  intro v w
  have hequal : v.equal w = true := rfl
  obtain ⟨hequiv, hkeeps⟩ := equality_is_equivalence
  exact ⟨hequal, hequiv.symm hequal, (hkeeps v w hequal).2.1, (hkeeps v w hequal).2.2.2⟩

end Wordstack
