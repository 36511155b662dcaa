import Wordstack.Proofs.Fault.Blame
import Wordstack.Proofs.Wire.Grammar

/-!
# Malformed parts of wire forms

Decoding stops at the first part of a wire form that is malformed, and says where that part is.

- **Shapes** (`Wire.HasShape`): what stands under the field of a kind, whatever is in it.
- **Parts** (`Wire.parts`): the values and the entries of records in a wire form, with their paths,
  each before those in it, from left to right.
- **Blame** (`Wire.finds_decode`): all parts are well formed (`Wire.Part.Formed`), or the first one
  that is not is named (`Wire.Part.Named`).
- **Decoding** (`Wire.decode_names_first_malformed`).
-/

namespace Wordstack

namespace Wire

/-! ## Shapes -/

/-- Digits, perhaps behind a minus sign. -/
def IsDecimal (s : String) : Prop :=
  ∃ digits : List Char, digits ≠ [] ∧ (∀ c ∈ digits, c.isDigit = true) ∧
    (s.toList = digits ∨ s.toList = '-' :: digits)

/-- A field that holds an array, or that is left out. -/
def HoldsArray (x : Option Json) : Prop := IsAbsent x ∨ ∃ xs, x = some (.arr xs)

/-- What stands under the field of a kind. Nothing is said of the values in it. -/
inductive HasShape : Kind → Json → Prop
  | intText {s : String} (h : IsDecimal s) : HasShape .int (.str s)
  | intNumber {x : Binary64} {n : Int} (h : x.toInt? = some n)
    (hsafe : n.natAbs ≤ Binary64.safeLimit) : HasShape .int (.num x)
  | float (x : Binary64) : HasShape .float (.num x)
  | floatName {s : String} (h : s = "NaN" ∨ s = "Infinity" ∨ s = "-Infinity") :
    HasShape .float (.str s)
  | bool (b : Bool) : HasShape .bool (.bool b)
  | string (s : String) : HasShape .string (.str s)
  | null (x : Json) : HasShape .null x
  | array {fields : List (String × Json)} (h : HoldsArray (fields.lookup "items")) :
    HasShape .array (.obj fields)
  | record {fields : List (String × Json)} (h : HoldsArray (fields.lookup "fields")) :
    HasShape .record (.obj fields)
  | instant {fields : List (String × Json)} {iso : String}
    (h : fields.lookup "iso8601" = some (.str iso))
    (hiso : (Calendar.readTimestamp iso).isSome = true) : HasShape .instant (.obj fields)
  | plainDate {fields : List (String × Json)} {iso : String}
    (h : fields.lookup "iso8601_date" = some (.str iso)) (hiso : HasDateForm iso) :
    HasShape .plainDate (.obj fields)
  | zoned {fields : List (String × Json)} {iso zone : String}
    (h : fields.lookup "iso8601" = some (.str iso))
    (hzone : fields.lookup "timezone" = some (.str zone)) : HasShape .zoned (.obj fields)

theorem isInteger_iff {s : String} : isInteger s.toList = true ↔ IsDecimal s := by
  have hdigits : ∀ {cs : List Char}, Text.allDigits cs = true ↔
      cs ≠ [] ∧ ∀ c ∈ cs, c.isDigit = true := by
    intro cs
    simp [Text.allDigits]
  unfold isInteger IsDecimal
  generalize s.toList = cs
  split
  · rename_i hsign
    obtain ⟨rest, rfl⟩ := List.head?_eq_some_iff.mp (beq_iff_eq.mp hsign)
    rw [List.drop_one, List.tail_cons, hdigits]
    constructor
    · rintro ⟨hne, hall⟩
      exact ⟨rest, hne, hall, .inr rfl⟩
    · rintro ⟨digits, hne, hall, rfl | h⟩
      · exact absurd (hall '-' List.mem_cons_self) (by decide)
      · obtain ⟨-, rfl⟩ := List.cons.inj h
        exact ⟨hne, hall⟩
  · rename_i hsign
    rw [hdigits]
    constructor
    · rintro ⟨hne, hall⟩
      exact ⟨cs, hne, hall, .inl rfl⟩
    · rintro ⟨digits, hne, hall, rfl | rfl⟩
      · exact ⟨hne, hall⟩
      · exact absurd rfl hsign

theorem toSafeInt?_eq_some_iff {x : Binary64} {n : Int} :
    x.toSafeInt? = some n ↔ x.toInt? = some n ∧ n.natAbs ≤ Binary64.safeLimit := by
  unfold Binary64.toSafeInt?
  split
  · rename_i i hi
    split
    · rename_i hsafe
      simp only [hi, Option.some.injEq]
      exact ⟨fun h => ⟨h, h ▸ hsafe⟩, And.left⟩
    · rename_i hsafe
      simp only [hi, Option.some.injEq, reduceCtorEq, false_iff]
      rintro ⟨rfl, h⟩
      exact hsafe h
  · rename_i h
    simp [h]

/-- What holds no values has the body of its kind exactly if it has the shape. -/
theorem isBody_iff_hasShape {kind : Kind} {body : Json} (harray : kind ≠ .array)
    (hrecord : kind ≠ .record) : IsBody kind body ↔ HasShape kind body := by
  constructor
  · intro h
    cases h with
    | intText h => exact .intText (isInteger_iff.mp h)
    | intNumber h =>
      obtain ⟨hint, hsafe⟩ := toSafeInt?_eq_some_iff.mp h
      exact .intNumber hint hsafe
    | float => exact .float _
    | floatName h => exact .floatName h
    | bool b => exact .bool b
    | string s => exact .string s
    | null => exact .null _
    | instant h hiso => exact .instant h hiso
    | plainDate h hiso => exact .plainDate h (isDateText_iff.mp hiso)
    | zoned h hzone => exact .zoned h hzone
    | noItems | items => exact absurd rfl harray
    | noFields | fields => exact absurd rfl hrecord
  · intro h
    cases h with
    | intText h => exact .intText (isInteger_iff.mpr h)
    | intNumber h hsafe => exact .intNumber (toSafeInt?_eq_some_iff.mpr ⟨h, hsafe⟩)
    | float => exact .float _
    | floatName h => exact .floatName h
    | bool b => exact .bool b
    | string s => exact .string s
    | null => exact .null _
    | instant h hiso => exact .instant h hiso
    | plainDate h hiso => exact .plainDate h (isDateText_iff.mpr hiso)
    | zoned h hzone => exact .zoned h hzone
    | array => exact absurd rfl harray
    | record => exact absurd rfl hrecord

theorem hasShape_array_iff {fields : List (String × Json)} :
    HasShape .array (.obj fields) ↔ HoldsArray (fields.lookup "items") := by
  constructor
  · rintro ⟨⟩
    assumption
  · exact .array

theorem hasShape_record_iff {fields : List (String × Json)} :
    HasShape .record (.obj fields) ↔ HoldsArray (fields.lookup "fields") := by
  constructor
  · rintro ⟨⟩
    assumption
  · exact .record

/-! ## Parts -/

/-- A place where a value should stand, if anything does, or an entry of a record. -/
inductive Part where
  | value (path : String) (x : Option Json)
  | entry (path : String) (x : Json)

namespace Part

/-- Where the part is. -/
def path : Part → String
  | value path _ => path
  | entry path _ => path

/-- The part is right, apart from those in it. -/
inductive Formed : Part → Prop
  | value {path : String} {kind : Kind} {body : Json} (h : HasShape kind body) :
    Formed (value path (some (.obj [(kind.key, body)])))
  | entry {path : String} {fields : List (String × Json)} {key : String}
    (h : fields.lookup "key" = some (.str key)) : Formed (entry path (.obj fields))

/-- The fault says that something is wrong at the part: its text is the path of the part and then
what is missing there, or the rest of a path below. -/
def Named (p : Part) (f : Fault) : Prop :=
  ∃ sep rest, (sep = ":" ∨ sep = ".") ∧ f = .wireFormat (p.path ++ sep ++ rest)

theorem formed_value_iff {path : String} {kind : Kind} {body : Json} :
    Formed (value path (some (.obj [(kind.key, body)]))) ↔ HasShape kind body := by
  constructor
  · intro h
    generalize hp : Part.value path (some (.obj [(kind.key, body)])) = p at h
    cases h with
    | entry => cases hp
    | value h =>
      simp only [value.injEq, Option.some.injEq, Json.obj.injEq, List.cons.injEq, Prod.mk.injEq,
        and_true] at hp
      obtain ⟨-, hkey, rfl⟩ := hp
      obtain rfl := Kind.key_inj hkey
      exact h
  · exact .value

theorem exists_kind {path key : String} {body : Json}
    (h : Formed (value path (some (.obj [(key, body)])))) : ∃ kind : Kind, kind.key = key := by
  generalize hp : Part.value path (some (.obj [(key, body)])) = p at h
  cases h with
  | entry => cases hp
  | value h =>
    simp only [value.injEq, Option.some.injEq, Json.obj.injEq, List.cons.injEq, Prod.mk.injEq] at hp
    exact ⟨_, hp.2.1.1.symm⟩

theorem formed_entry_iff {path : String} {fields : List (String × Json)} :
    Formed (entry path (.obj fields)) ↔ ∃ key, fields.lookup "key" = some (.str key) := by
  constructor
  · intro h
    cases h with
    | entry h => exact ⟨_, h⟩
  · rintro ⟨key, h⟩
    exact .entry h

end Part

mutual
/-- The parts of a wire form, each before those in it, from left to right. -/
def parts (path : String) : Json → List Part
  | .obj [(key, body)] => .value path (some (.obj [(key, body)])) ::
    if key == "array_value" then
      match body with
      | .obj fields => partsOfItemsIn (path ++ ".array_value.items") fields
      | _ => []
    else if key == "record_value" then
      match body with
      | .obj fields => partsOfFieldsIn (path ++ ".record_value.fields") fields
      | _ => []
    else []
  | j => [.value path (some j)]

/-- The parts under `items`. -/
def partsOfItemsIn (path : String) : List (String × Json) → List Part
  | [] => []
  | (k, x) :: rest =>
    if k == "items" then
      match x with
      | .arr items => partsOfItems path 0 items
      | _ => []
    else partsOfItemsIn path rest

/-- The parts of values in order; `i` is the index of the first one. -/
def partsOfItems (path : String) (i : Nat) : List Json → List Part
  | [] => []
  | x :: xs => parts (indexed path i) x ++ partsOfItems path (i + 1) xs

/-- The parts under `fields`. -/
def partsOfFieldsIn (path : String) : List (String × Json) → List Part
  | [] => []
  | (k, x) :: rest =>
    if k == "fields" then
      match x with
      | .arr items => partsOfEntries path 0 items
      | _ => []
    else partsOfFieldsIn path rest

/-- The parts of entries in order; `i` is the index of the first one. -/
def partsOfEntries (path : String) (i : Nat) : List Json → List Part
  | [] => []
  | x :: xs => .entry (indexed path i) x ::
    ((match x with
      | .obj fields => partsOfValueIn (indexed path i ++ ".value") fields
      | _ => []) ++ partsOfEntries path (i + 1) xs)

/-- The parts under `value`, or the place for one. -/
def partsOfValueIn (path : String) : List (String × Json) → List Part
  | [] => [.value path none]
  | (k, x) :: rest => if k == "value" then parts path x else partsOfValueIn path rest
end

/-! ## Readers -/

/-- A fault of the reader says that something is wrong below the path. -/
def Below {α : Type} (path : String) (r : Except Fault α) : Prop :=
  ∀ f, r = .error f → ∃ rest, f = .wireFormat (path ++ "." ++ rest)

namespace Below

variable {α β : Type} {path : String} {r : Except Fault α}

theorem ok (a : α) : Below path (.ok a) := nofun

theorem error (path rest note : String) : Below (α := α) path
    (.error (.wireFormat (path ++ ("." ++ rest) ++ note))) := by
  rintro f ⟨⟩
  exact ⟨rest ++ note, by simp [← String.toList_inj]⟩

theorem expected (path rest what : String) :
    Below (α := α) path (Wire.expected (path ++ ("." ++ rest)) what) := by
  unfold Wire.expected
  rw [String.append_assoc]
  exact error path rest _

theorem bind {f : α → Except Fault β} (h : Below path r) (hf : ∀ a, Below path (f a)) :
    Below path (r >>= f) := by
  cases r with
  | ok a => exact hf a
  | error f => exact fun _ e => h _ (by cases e; rfl)

theorem object (path rest : String) (x : Json) :
    Below path (expectObject (path ++ ("." ++ rest)) x) := by
  unfold expectObject
  split
  · exact ok _
  · exact expected path rest _

theorem string (path rest : String) (x : Option Json) :
    Below path (expectString (path ++ ("." ++ rest)) x) := by
  unfold expectString
  split
  · exact ok _
  · exact expected path rest _

end Below

theorem below_decodeInt (path : String) (x : Json) : Below path (decodeInt path x) := by
  unfold decodeInt
  split
  · split
    · exact .ok _
    · exact .expected path "int_value" _
  · split
    · exact .ok _
    · exact .expected path "int_value" _
  · exact .expected path "int_value" _

theorem below_decodeFloat (path : String) (x : Json) : Below path (decodeFloat path x) := by
  unfold decodeFloat
  split
  · exact .ok _
  · split_ifs
    · exact .ok _
    · exact .ok _
    · exact .ok _
    · exact .expected path "float_value" _
  · exact .expected path "float_value" _

theorem below_decodeInstant (path : String) (x : Json) : Below path (decodeInstant path x) := by
  refine (Below.object path "instant_value" x).bind fun fields => ?_
  refine (Below.string path "instant_value.iso8601" _).bind fun iso => ?_
  split
  · exact .ok _
  · rw [String.append_assoc]
    exact .error path "instant_value: invalid timestamp '" _

theorem below_decodeDate (path : String) (x : Json) : Below path (decodeDate path x) := by
  refine (Below.object path "plain_date_value" x).bind fun fields => ?_
  refine (Below.string path "plain_date_value.iso8601_date" _).bind fun iso => ?_
  split
  · exact .ok _
  · rw [String.append_assoc]
    exact .error path "plain_date_value: invalid date '" _

theorem below_decodeZoned (path : String) (x : Json) : Below path (decodeZoned path x) := by
  have hpath : ∀ key, path ++ ".zoned_datetime_value" ++ key =
      path ++ ("." ++ ("zoned_datetime_value" ++ key)) := by
    intro key
    simp [← String.toList_inj]
  unfold decodeZoned
  simp only [hpath]
  refine (Below.object path "zoned_datetime_value" x).bind fun fields => ?_
  refine (Below.string path _ _).bind fun iso => ?_
  exact (Below.string path _ _).bind fun zone => .ok _

/-! ## Blame -/

/-- The places of a wire form are looked at in order, up to the first that is malformed. -/
abbrev Finds {α : Type} (parts : List Part) (r : Except Fault α) : Prop :=
  Blames Part.Formed Part.Named parts r

/-- Something else stands at the place. -/
theorem finds_noted {α : Type} {p : Part} {rest : List Part} (h : ¬ p.Formed)
    (note more : String) :
    Finds (α := α) (p :: rest) (.error (.wireFormat (p.path ++ (":" ++ note) ++ more))) :=
  .bad h ⟨":", note ++ more, .inl rfl, by simp [← String.toList_inj]⟩

theorem finds_unexpected {α : Type} {p : Part} {rest : List Part} (h : ¬ p.Formed)
    (what : String) : Finds (α := α) (p :: rest) (expected p.path what) :=
  finds_noted h " expected " what

/-- Something else stands below the place. -/
theorem finds_below {α : Type} {p : Part} {rest : List Part} {r : Except Fault α} {f : Fault}
    (h : ¬ p.Formed) (hb : Below p.path r) (hr : r = .error f) : Finds (p :: rest) r := by
  obtain ⟨note, rfl⟩ := hb f hr
  rw [hr]
  exact .bad h ⟨".", note, .inr rfl, rfl⟩

theorem finds_unexpected_below {α : Type} {p : Part} {rest : List Part} (h : ¬ p.Formed)
    (key what : String) : Finds (α := α) (p :: rest) (expected (p.path ++ ("." ++ key)) what) :=
  finds_below h (.expected p.path key what) rfl

/-- A value without values in it. -/
theorem finds_leaf {kind : Kind} {path : String} {body : Json} {r : Except Fault Val}
    (harray : kind ≠ .array) (hrecord : kind ≠ .record) (hj : Judges (IsBody kind body) r)
    (hb : Below path r) : Finds (parts path (.obj [(kind.key, body)])) r := by
  have hparts : parts path (.obj [(kind.key, body)]) =
      [.value path (some (.obj [(kind.key, body)]))] := by
    cases kind <;> first | rfl | contradiction
  rw [hparts]
  have hformed : Part.Formed (.value path (some (.obj [(kind.key, body)]))) ↔ IsBody kind body :=
    Part.formed_value_iff.trans (isBody_iff_hasShape harray hrecord).symm
  cases hj with
  | ok h => exact .cons (hformed.mpr h) (.nil _)
  | error h => exact finds_below (fun hp => h (hformed.mp hp)) hb rfl

/-- One kind is tried, and then the others. -/
theorem finds_choice (kind : Kind) {path key : String} {body : Json} {r r' : Except Fault Val}
    (h : Finds (parts path (.obj [(kind.key, body)])) r)
    (h' : kind.key ≠ key → Finds (parts path (.obj [(key, body)])) r') :
    Finds (parts path (.obj [(key, body)])) (if key == kind.key then r else r') := by
  split
  · rename_i hkey
    rwa [beq_iff_eq.mp hkey]
  · rename_i hkey
    apply h'
    rintro rfl
    exact hkey (beq_self_eq_true _)

theorem partsOfItemsIn_cons (path k : String) (x : Json) (rest : List (String × Json)) :
    partsOfItemsIn path ((k, x) :: rest) =
      if k == "items" then
        match x with
        | .arr items => partsOfItems path 0 items
        | _ => []
      else partsOfItemsIn path rest := by
  cases x <;> rfl

theorem partsOfFieldsIn_cons (path k : String) (x : Json) (rest : List (String × Json)) :
    partsOfFieldsIn path ((k, x) :: rest) =
      if k == "fields" then
        match x with
        | .arr items => partsOfEntries path 0 items
        | _ => []
      else partsOfFieldsIn path rest := by
  cases x <;> rfl

/-- An array is looked for in one field after the other. -/
theorem finds_field {α : Type} {p : Part} {name k : String} {x : Json}
    {rest : List (String × Json)} {parts parts' : List Part} {r r' : Except Fault α}
    (hp : p.Formed ↔ HoldsArray (((k, x) :: rest).lookup name))
    (h : (p.Formed ↔ HoldsArray (some x)) → Finds (p :: parts) r)
    (h' : (p.Formed ↔ HoldsArray (rest.lookup name)) → Finds (p :: parts') r') :
    Finds (p :: if k == name then parts else parts') (if k == name then r else r') := by
  by_cases hk : k = name
  · subst hk
    rw [List.lookup_cons_self] at hp
    simpa using h hp
  · have hne : (name == k) = false := by simpa using Ne.symm hk
    rw [List.lookup_cons, hne] at hp
    simpa [hk] using h' hp

theorem not_holdsArray {x : Json} (hnull : x ≠ .null) (harr : ∀ xs, x ≠ .arr xs) :
    ¬ HoldsArray (some x) := by
  rintro ((h | h) | ⟨xs, h⟩)
  · cases h
  · exact hnull (Option.some.inj h)
  · exact harr xs (Option.some.inj h)

theorem not_formed_value {kind : Kind} {path : String} {body : Json} (h : ¬ HasShape kind body) :
    ¬ (Part.value path (some (.obj [(kind.key, body)]))).Formed :=
  fun hp => h (Part.formed_value_iff.mp hp)

/-- The parts begin with the whole. -/
theorem exists_parts (path : String) (j : Json) :
    ∃ rest, parts path j = .value path (some j) :: rest := by
  cases j with
  | obj fields =>
    obtain _ | ⟨⟨key, body⟩, _ | ⟨_, _⟩⟩ := fields
    · exact ⟨_, rfl⟩
    · cases body <;> exact ⟨_, rfl⟩
    · exact ⟨_, rfl⟩
  | _ => exact ⟨_, rfl⟩

/-- The one field has the name of no kind. -/
theorem finds_unknown (path : String) {key : String} {body : Json}
    (h : ∀ kind : Kind, kind.key ≠ key) : Finds (α := Val) (parts path (.obj [(key, body)]))
      (.error (.wireFormat (path ++ ": unknown value field '" ++ key ++ "'"))) := by
  obtain ⟨rest, hrest⟩ := exists_parts path (.obj [(key, body)])
  rw [hrest, String.append_assoc]
  refine finds_noted (fun hp => ?_) " unknown value field '" (key ++ "'")
  obtain ⟨kind, hkey⟩ := Part.exists_kind hp
  exact h kind hkey

/-- There are no fields, or several. -/
theorem finds_crowded (path : String) {fields : List (String × Json)}
    (h : ∀ key body, fields ≠ [(key, body)]) :
    Finds (parts path (.obj fields)) (decode path (.obj fields)) := by
  obtain ⟨rest, hrest⟩ := exists_parts path (.obj fields)
  have hdecode : decode path (.obj fields) = .error (.wireFormat
      (path ++ ": expected exactly one value field (got " ++ toString fields.length ++ ")")) := by
    rw [decode]
    exact h
  rw [hrest, hdecode, String.append_assoc]
  refine finds_noted ?_ " expected exactly one value field (got " (toString fields.length ++ ")")
  rintro ⟨⟩
  exact h _ _ rfl

mutual
/-- Decoding a value fails at the first malformed part of it. -/
theorem finds_decode (path : String) (j : Json) : Finds (parts path j) (decode path j) := by
  match j with
  | .obj [(key, body)] =>
    rw [decode_single]
    -- one kind of value after the other, in the order in which the keys are tried
    refine finds_choice .int (finds_leaf nofun nofun (judges_decodeInt path body)
      (below_decodeInt path body)) fun hint => ?_
    refine finds_choice .float (finds_leaf nofun nofun (judges_decodeFloat path body)
      (below_decodeFloat path body)) fun hfloat => ?_
    refine finds_choice .bool ?_ fun hbool => ?_
    · match body with
      | .bool b => exact .cons (.value (.bool b)) (.nil _)
      | .null | .num _ | .str _ | .arr _ | .obj _ =>
        exact finds_unexpected_below (not_formed_value (by nofun)) "bool_value" _
    refine finds_choice .string ?_ fun hstring => ?_
    · match body with
      | .str s => exact .cons (.value (.string s)) (.nil _)
      | .null | .num _ | .bool _ | .arr _ | .obj _ =>
        exact finds_unexpected_below (not_formed_value (by nofun)) "string_value" _
    refine finds_choice .null (.cons (.value (.null body)) (.nil _)) fun hnull => ?_
    refine finds_choice .array ?_ fun harray => ?_
    · match body with
      | .obj fields => exact (finds_decodeItemsOf "array_value.items" fields
        (Part.formed_value_iff.trans hasShape_array_iff)).map _
      | .null | .bool _ | .num _ | .str _ | .arr _ =>
        exact finds_unexpected_below (not_formed_value (by nofun)) "array_value" _
    refine finds_choice .record ?_ fun hrecord => ?_
    · match body with
      | .obj fields => exact (finds_decodeFieldsOf "record_value.fields" fields
        (Part.formed_value_iff.trans hasShape_record_iff)).map _
      | .null | .bool _ | .num _ | .str _ | .arr _ =>
        exact finds_unexpected_below (not_formed_value (by nofun)) "record_value" _
    refine finds_choice .instant (finds_leaf nofun nofun (judges_decodeInstant path body)
      (below_decodeInstant path body)) fun hinstant => ?_
    refine finds_choice .plainDate (finds_leaf nofun nofun (judges_decodeDate path body)
      (below_decodeDate path body)) fun hdate => ?_
    refine finds_choice .zoned (finds_leaf nofun nofun (judges_decodeZoned path body)
      (below_decodeZoned path body)) fun hzoned => ?_
    apply finds_unknown
    intro kind hkey
    cases kind <;> first | exact hint hkey | exact hfloat hkey | exact hbool hkey |
      exact hstring hkey | exact hnull hkey | exact harray hkey | exact hrecord hkey |
      exact hinstant hkey | exact hdate hkey | exact hzoned hkey
  | .obj [] | .obj (_ :: _ :: _) =>
    exact finds_crowded path nofun
  | .null | .bool _ | .num _ | .str _ | .arr _ =>
    refine finds_unexpected ?_ _
    nofun

theorem finds_decodeItemsOf {p : Part} (key : String) (fields : List (String × Json))
    (hp : p.Formed ↔ HoldsArray (fields.lookup "items")) :
    Finds (p :: partsOfItemsIn (p.path ++ ("." ++ key)) fields)
      (decodeItemsOf (p.path ++ ("." ++ key)) fields) := by
  match fields with
  | [] => exact .cons (hp.mpr (.inl (.inl rfl))) (.nil _)
  | (k, x) :: rest =>
    rw [partsOfItemsIn_cons, decodeItemsOf_cons]
    refine finds_field hp (fun hp => ?_) (finds_decodeItemsOf key rest)
    match x with
    | .null => exact .cons (hp.mpr (.inl (.inr rfl))) (.nil _)
    | .arr items => exact .cons (hp.mpr (.inr ⟨items, rfl⟩)) (finds_decodeItems _ 0 items)
    | .bool _ | .num _ | .str _ | .obj _ =>
      exact finds_unexpected_below (hp.not.mpr (not_holdsArray nofun nofun)) key _

theorem finds_decodeItems (path : String) (i : Nat) (items : List Json) :
    Finds (partsOfItems path i items) (decodeItems path i items) := by
  match items with
  | [] => exact .nil _
  | x :: xs =>
    rw [partsOfItems, decodeItems]
    exact (finds_decode (indexed path i) x).bind fun v => (finds_decodeItems path (i + 1) xs).done _

theorem finds_decodeFieldsOf {p : Part} (key : String) (fields : List (String × Json))
    (hp : p.Formed ↔ HoldsArray (fields.lookup "fields")) :
    Finds (p :: partsOfFieldsIn (p.path ++ ("." ++ key)) fields)
      (decodeFieldsOf (p.path ++ ("." ++ key)) fields) := by
  match fields with
  | [] => exact .cons (hp.mpr (.inl (.inl rfl))) (.nil _)
  | (k, x) :: rest =>
    rw [partsOfFieldsIn_cons, decodeFieldsOf_cons]
    refine finds_field hp (fun hp => ?_) (finds_decodeFieldsOf key rest)
    match x with
    | .null => exact .cons (hp.mpr (.inl (.inr rfl))) (.nil _)
    | .arr items => exact .cons (hp.mpr (.inr ⟨items, rfl⟩)) (finds_decodeEntries _ 0 items)
    | .bool _ | .num _ | .str _ | .obj _ =>
      exact finds_unexpected_below (hp.not.mpr (not_holdsArray nofun nofun)) key _

theorem finds_decodeEntries (path : String) (i : Nat) (items : List Json) :
    Finds (partsOfEntries path i items) (decodeEntries path i items) := by
  match items with
  | [] => exact .nil _
  | .obj fields :: xs =>
    rw [partsOfEntries, decodeEntries]
    have hrest := fun key : String =>
      (finds_decodeValueOf (indexed path i ++ ".value") fields).bind fun v =>
        (finds_decodeEntries path (i + 1) xs).done fun rest => (key, v) :: rest
    match hkey : fields.lookup "key" with
    | some (.str key) => exact .cons (.entry hkey) (hrest key)
    | none | some .null | some (.bool _) | some (.num _) | some (.arr _) | some (.obj _) =>
      refine finds_unexpected_below (fun hp => ?_) "key" _
      obtain ⟨key, h⟩ := Part.formed_entry_iff.mp hp
      simp [hkey] at h
  | .null :: _ | .bool _ :: _ | .num _ :: _ | .str _ :: _ | .arr _ :: _ =>
    refine finds_unexpected ?_ _
    nofun

theorem finds_decodeValueOf (path : String) (fields : List (String × Json)) :
    Finds (partsOfValueIn path fields) (decodeValueOf path fields) := by
  match fields with
  | [] =>
    refine finds_unexpected ?_ _
    nofun
  | (k, x) :: rest =>
    rw [partsOfValueIn, decodeValueOf]
    split
    · exact finds_decode path x
    · exact finds_decodeValueOf path rest
end

/-- Decoding accepts a wire form exactly if all parts of it are well formed, and then gives a value
that can be sent again. Of any other wire form it says only that the form is wrong, and where: the
text begins with the path of the first part that is malformed. -/
theorem decode_names_first_malformed (path : String) (j : Json) :
    ((∃ v, decode path j = .ok v) ↔ ∀ p ∈ parts path j, p.Formed) ∧
    (∀ v, decode path j = .ok v → v.isSerializable = true) ∧
    ∀ f, decode path j = .error f → ∃ p sep rest, FirstBad Part.Formed (parts path j) p ∧
      (sep = ":" ∨ sep = ".") ∧ f = .wireFormat (p.path ++ sep ++ rest) := by
  refine ⟨(finds_decode path j).isOk_iff, serializable_decode path j, fun f hf => ?_⟩
  have h := finds_decode path j
  rw [hf] at h
  obtain ⟨p, hp, sep, rest, hsep, hfault⟩ := h.exists_due
  exact ⟨p, sep, rest, hp, hsep, hfault⟩

example : decode "value" (.obj [("array_value", .obj [("items", .arr [.obj [("null_value", .null)],
      .obj [("record_value", .obj [("fields", .arr [.obj [("key", .str "a")]])])]])])]) =
    expected "value.array_value.items[1].record_value.fields[0].value" "an object" := rfl

end Wire

end Wordstack
