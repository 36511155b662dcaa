import Mathlib.Tactic.Common
import Wordstack.Json.Read
import Wordstack.Proofs.Binary64.Texts
import Wordstack.Proofs.Source.Printed
import Wordstack.Proofs.Value.Equality
import Wordstack.Text.Quoted

/-!
# The display form is unambiguous

- **Quoted texts** (`Json.readString_quote`, `Text.quote_append_inj`): a text between double quotes
  is a string of JSON, and is read back with nothing of what follows it. Where it ends and which text
  it quotes is told from its characters alone.
- **Words** (`scalarOf`): null, booleans and numbers are displayed as words, which are read back.
- **Parts** (`Text.join_inj`): the parts of a list are told from its text if each part is, whatever
  follows it.
- **Values** (`display_is_unambiguous`): null, booleans, numbers, texts, arrays and records are
  equal if their display forms are the same.
-/

namespace Wordstack

/-! ## Quoted texts -/

namespace Text

/-- The characters that have an escape of their own, after the character that names it. -/
def shortEscapes : List (Char × Char) :=
  [('\x22', '\x22'), ('\\', '\\'), ('b', '\x08'), ('f', '\x0C'), ('n', '\n'), ('r', '\r'),
    ('t', '\t')]

/-- Inside quotes a character has an escape of its own, or it is escaped by its number, or it stands
for itself. -/
theorem quoteChar_cases (c : Char) :
    (∃ e, (e, c) ∈ shortEscapes ∧ quoteChar c = ['\\', e]) ∨
      (c.toNat < 0x20 ∧
        quoteChar c = ['\\', 'u', '0', '0', hexDigit (c.toNat / 16), hexDigit (c.toNat % 16)]) ∨
      (c ≠ '\x22' ∧ c ≠ '\\' ∧ 0x20 ≤ c.toNat ∧ quoteChar c = [c]) := by
  by_cases hshort : ∃ e, (e, c) ∈ shortEscapes
  · obtain ⟨e, he⟩ := hshort
    refine .inl ⟨e, he, ?_⟩
    simp only [shortEscapes, List.mem_cons, Prod.mk.injEq, List.not_mem_nil, or_false] at he
    obtain ⟨rfl, rfl⟩ | ⟨rfl, rfl⟩ | ⟨rfl, rfl⟩ | ⟨rfl, rfl⟩ | ⟨rfl, rfl⟩ | ⟨rfl, rfl⟩ |
      ⟨rfl, rfl⟩ := he <;> rfl
  · refine .inr ?_
    have hne : ∀ x, (∃ e, (e, x) ∈ shortEscapes) → (c == x) = false := fun x hx =>
      beq_eq_false_iff_ne.mpr fun h => hshort (h ▸ hx)
    have hmark := hne '\x22' ⟨'\x22', by decide⟩
    have hescape := hne '\\' ⟨'\\', by decide⟩
    simp only [quoteChar, hmark, hescape, hne '\x08' ⟨'b', by decide⟩, hne '\x0C' ⟨'f', by decide⟩,
      hne '\n' ⟨'n', by decide⟩, hne '\r' ⟨'r', by decide⟩, hne '\t' ⟨'t', by decide⟩,
      Bool.false_eq_true, if_false]
    by_cases hc : c.toNat < 0x20
    · exact .inl ⟨hc, if_pos hc⟩
    · exact .inr ⟨beq_eq_false_iff_ne.mp hmark, beq_eq_false_iff_ne.mp hescape, Nat.le_of_not_lt hc,
        if_neg hc⟩

end Text

namespace Json

open Text

theorem digitValue_hexDigit {n : Nat} (h : n < 16) : Binary64.digitValue (hexDigit n) = n :=
  (by decide : ∀ n < 16, Binary64.digitValue (hexDigit n) = n) n h

theorem readHex4_hexDigit {n : Nat} (h : n < 0x20) (rest : List Char) :
    readHex4 ('0' :: '0' :: hexDigit (n / 16) :: hexDigit (n % 16) :: rest) = some (n, rest) := by
  have hhigh := digitValue_hexDigit (n := n / 16) (by omega)
  have hlow := digitValue_hexDigit (n := n % 16) (by omega)
  have hzero : Binary64.digitValue '0' = 0 := by decide
  simp only [readHex4, List.all_cons, List.all_nil, List.foldl_cons, List.foldl_nil, hhigh, hlow,
    hzero]
  rw [if_pos (by simp; omega)]
  congr 2
  omega

/-- One character inside quotes is read back. -/
theorem readStringFrom_quoteChar (fuel : Nat) (acc : List Char) (c : Char) (rest : List Char) :
    readStringFrom (fuel + 1) acc (quoteChar c ++ rest) = readStringFrom fuel (c :: acc) rest := by
  obtain ⟨e, he, hquote⟩ | ⟨hc, hquote⟩ | ⟨hmark, hescape, hc, hquote⟩ := quoteChar_cases c
  · rw [hquote]
    simp only [shortEscapes, List.mem_cons, Prod.mk.injEq, List.not_mem_nil, or_false] at he
    obtain ⟨rfl, rfl⟩ | ⟨rfl, rfl⟩ | ⟨rfl, rfl⟩ | ⟨rfl, rfl⟩ | ⟨rfl, rfl⟩ | ⟨rfl, rfl⟩ |
      ⟨rfl, rfl⟩ := he <;> rfl
  · rw [hquote]
    have hjoin : joinUnits c.toNat rest = (c, rest) := by
      unfold joinUnits
      dsimp only
      rw [if_neg (by simp; omega), if_neg (by simp; omega), Char.ofNat_toNat]
    simp only [List.cons_append, List.nil_append, readStringFrom, readHex4_hexDigit hc, hjoin]
  · rw [hquote]
    simp only [readStringFrom, List.singleton_append]
    split
    case h_1 h => cases h
    case h_2 h => exact absurd (List.cons.inj h).1 hmark
    case h_3 h => exact absurd (List.cons.inj h).1 hescape
    case h_4 h => exact absurd (List.cons.inj h).1 hescape
    case h_5 h =>
      obtain ⟨rfl, rfl⟩ := List.cons.inj h
      exact if_neg (Nat.not_lt.mpr hc)

theorem readStringFrom_quoted {fuel : Nat} {acc cs : List Char} (h : cs.length < fuel)
    (rest : List Char) :
    readStringFrom fuel acc (cs.flatMap quoteChar ++ '\x22' :: rest) =
      some (String.ofList (acc.reverse ++ cs), rest) := by
  obtain ⟨fuel, rfl⟩ := Nat.exists_eq_add_of_le' (Nat.one_le_of_lt h)
  induction cs generalizing fuel acc with
  | nil => simp [readStringFrom]
  | cons c cs ih =>
    rw [List.length_cons, Nat.add_lt_add_iff_right] at h
    obtain ⟨fuel, rfl⟩ := Nat.exists_eq_add_of_le' (Nat.one_le_of_lt h)
    rw [List.flatMap_cons, List.append_assoc, readStringFrom_quoteChar, ih fuel h,
      List.reverse_cons, List.append_assoc, List.singleton_append]

theorem length_le_flatMap_quoteChar (cs : List Char) :
    cs.length ≤ (cs.flatMap quoteChar).length := by
  induction cs with
  | nil => exact Nat.le_refl 0
  | cons c cs ih =>
    have hc : 1 ≤ (quoteChar c).length := by
      obtain ⟨_, -, h⟩ | ⟨-, h⟩ | ⟨-, -, -, h⟩ := quoteChar_cases c <;> simp [h]
    rw [List.flatMap_cons, List.length_append, List.length_cons]
    omega

/-- A text between double quotes is a string of JSON, and is read back with nothing of what follows
it. -/
theorem readString_quote (s : String) (rest : List Char) :
    ∃ body, (quote s).toList ++ rest = '\x22' :: body ∧ readString body = some (s, rest) := by
  refine ⟨s.toList.flatMap quoteChar ++ '\x22' :: rest, by simp [quote, quoteChars], ?_⟩
  have hfuel := length_le_flatMap_quoteChar s.toList
  rw [readString, readStringFrom_quoted (by rw [List.length_append]; omega), List.reverse_nil,
    List.nil_append, String.ofList_toList]

end Json

/-- Where a text between double quotes ends, and which text it is, is told from its characters. -/
theorem Text.quote_append_inj {s t : String} {rest rest' : List Char}
    (h : (quote s).toList ++ rest = (quote t).toList ++ rest') : s = t ∧ rest = rest' := by
  obtain ⟨body, hs, hread⟩ := Json.readString_quote s rest
  obtain ⟨body', ht, hread'⟩ := Json.readString_quote t rest'
  rw [hs, ht] at h
  obtain ⟨-, rfl⟩ := List.cons.inj h
  exact Prod.mk.inj (Option.some.inj (hread.symm.trans hread'))

/-! ## Words -/

/-- The characters of words that stand for null, booleans and numbers. -/
def isWordChar (c : Char) : Bool := c.isAlphanum || c == '.' || c == '+' || c == '-'

namespace Binary64

theorem isWordChar_of_isDecimalChar {c : Char} (h : isDecimalChar c = true) :
    isWordChar c = true := by
  simp only [isDecimalChar, Bool.or_eq_true, beq_iff_eq] at h
  obtain (((hdigit | rfl) | rfl) | rfl) | rfl := h
  · simp [isWordChar, Char.isAlphanum, hdigit]
  all_goals decide

theorem isWordChar_toText (x : Binary64) : ∀ c ∈ x.toText.toList, isWordChar c = true := by
  cases x with
  | nan => exact List.all_eq_true.mp (by decide +kernel)
  | infinite negative => cases negative <;> exact List.all_eq_true.mp (by decide +kernel)
  | finite negative m k hu =>
    unfold toText
    dsimp only
    split
    case isTrue => exact List.all_eq_true.mp (by decide +kernel)
    case isFalse hm =>
      obtain ⟨c, e, -, hwritten, -⟩ :=
        exists_written (ne_zero_of_readsBack hm (readsBack_decimal m k))
      obtain ⟨d, more, hlayout, hd, hmore⟩ :=
        hwritten.head Nat.toDigits_ne_nil fun _ => isDigit_of_mem
      rw [String.toList_ofList, hlayout]
      refine List.forall_mem_append.mpr ⟨fun c hc => ?_, List.forall_mem_cons.mpr
        ⟨isWordChar_of_isDecimalChar (isDecimalChar_of_isDigit hd),
          fun c hc => isWordChar_of_isDecimalChar (hmore c hc)⟩⟩
      cases negative
      · cases hc
      · exact List.mem_singleton.mp hc ▸ rfl

end Binary64

theorem IsTerm.isWordChar {cs : List Char} (h : IsTerm cs) : ∀ c ∈ cs, isWordChar c = true := by
  intro c hc
  obtain hletter | rfl := h.2 c hc
  · simp [Wordstack.isWordChar, hletter]
  · rfl

theorem Binary64.isWordChar_onePlace (x : Binary64) :
    ∀ c ∈ x.onePlace.toList, isWordChar c = true := by
  unfold onePlace
  split
  case h_1 i _ =>
    split
    case isTrue =>
      rw [String.toList_append]
      exact List.forall_mem_append.mpr
        ⟨(isTerm_display_int i).isWordChar, List.all_eq_true.mp (by decide)⟩
    case isFalse => exact isWordChar_toText x
  case h_2 => exact isWordChar_toText x

/-- The value whose display form a word is. -/
def scalarOf (word : String) : Val :=
  if word.toList.all fun c => c.isDigit || c == '-' then .int (Text.toInt word.toList)
  else if word = "NULL" then .null
  else if word = "TRUE" then .bool true
  else if word = "FALSE" then .bool false
  else .float (Binary64.ofText word)

namespace Val

/-- Null, booleans and numbers. -/
inductive IsScalar : Val → Prop
  | null : IsScalar null
  | bool (b : Bool) : IsScalar (bool b)
  | int (n : Int) : IsScalar (int n)
  | float (x : Binary64) : IsScalar (float x)

theorem scalarOf_display {v : Val} (h : v.IsScalar) : scalarOf v.display = v.eqForm := by
  cases h with
  | null => rfl
  | bool b => cases b <;> rfl
  | int n =>
    have hall : (toString n).toList.all (fun c => c.isDigit || c == '-') = true := by
      have hdigits : ∀ c ∈ Nat.toDigits 10 n.natAbs, (c.isDigit || c == '-') = true := by
        intro c hc
        rw [Binary64.isDigit_of_mem hc, Bool.true_or]
      rw [List.all_eq_true, Text.toList_toString]
      split
      case isTrue => exact List.forall_mem_cons.mpr ⟨rfl, hdigits⟩
      case isFalse => exact hdigits
    rw [display, scalarOf, if_pos hall, Text.toInt_toString]
    rfl
  | float x =>
    obtain ⟨c, hc, hdigit, hminus⟩ := x.exists_mem_onePlace
    have hall : ¬ x.onePlace.toList.all (fun c => c.isDigit || c == '-') = true := fun h => by
      simpa [hdigit, hminus] using List.all_eq_true.mp h c hc
    have hname : ∀ s, Binary64.ofText s = .nan → s ≠ "NaN" → x.onePlace ≠ s := by
      rintro s hs hne rfl
      rw [x.ofText_onePlace] at hs
      cases x with
      | nan => exact hne rfl
      | infinite negative => cases negative <;> cases hs
      | finite negative m k hu =>
        unfold unsignedFloat at hs
        split at hs <;> cases hs
    rw [display, scalarOf, if_neg hall, if_neg (hname _ (by decide +kernel) (by decide)),
      if_neg (hname _ (by decide +kernel) (by decide)),
      if_neg (hname _ (by decide +kernel) (by decide)), x.ofText_onePlace]
    rfl

theorem IsScalar.isWordChar_display {v : Val} (h : v.IsScalar) :
    ∀ c ∈ v.display.toList, isWordChar c = true := by
  cases h with
  | null => exact List.all_eq_true.mp (by decide +kernel)
  | bool b => exact (isTerm_display_bool b).isWordChar
  | int n => exact (isTerm_display_int n).isWordChar
  | float x => exact x.isWordChar_onePlace

theorem IsScalar.display_ne_nil {v : Val} (h : v.IsScalar) : v.display.toList ≠ [] := by
  cases h with
  | null => decide +kernel
  | bool b => exact (isTerm_display_bool b).1
  | int n => exact (isTerm_display_int n).1
  | float x =>
    obtain ⟨c, hc, -⟩ := x.exists_mem_onePlace
    exact List.ne_nil_of_mem hc

end Val

/-! ## Parts -/

namespace Text

/-- What follows the first of some parts: the separator and the others, or the closing character. -/
def joinTail (sep : String) (close : Char) (rest : List Char) : List String → List Char
  | [] => close :: rest
  | parts => sep.toList ++ ((join sep parts).toList ++ close :: rest)

theorem toList_join_append (sep part : String) (parts : List String) (close : Char)
    (rest : List Char) :
    (join sep (part :: parts)).toList ++ close :: rest =
      part.toList ++ joinTail sep close rest parts := by
  cases parts with
  | nil => rfl
  | cons next parts => rw [toList_join_cons, List.append_assoc, List.append_assoc]; rfl

variable {α : Type} {f : α → String} {sep : String} {close c : Char} {cs : List Char}

theorem stops_joinTail (hsep : sep.toList = c :: cs) (hc : isWordChar c = false)
    (hclose : isWordChar close = false) (rest : List Char) (parts : List String) :
    Stops isWordChar (joinTail sep close rest parts) := by
  cases parts with
  | nil => simpa [joinTail, Stops] using hclose
  | cons => simpa [joinTail, Stops, hsep] using hc

theorem joinTail_cons_ne_nil (hsep : sep.toList = c :: cs) (hne : c ≠ close)
    {rest rest' : List Char} {part : String} {parts : List String} :
    joinTail sep close rest (part :: parts) ≠ joinTail sep close rest' [] := by
  rw [joinTail, joinTail, hsep]
  · exact fun h => hne (List.cons.inj h).1
  · exact List.cons_ne_nil part parts

/-- The parts of a list are told from its text if each of them is, whatever follows it that does not
go on with a word. -/
theorem join_inj {R : α → α → Prop} (hsep : sep.toList = c :: cs) (hc : isWordChar c = false)
    (hclose : isWordChar close = false) (hne : c ≠ close) {xs ys : List α} {rest rest' : List Char}
    (hx : ∀ x ∈ xs, ∀ more, ((f x).toList ++ more).head? ≠ some close)
    (hy : ∀ y ∈ ys, ∀ more, ((f y).toList ++ more).head? ≠ some close)
    (hpart : ∀ x ∈ xs, ∀ y ∈ ys, ∀ more more', Stops isWordChar more → Stops isWordChar more' →
      (f x).toList ++ more = (f y).toList ++ more' → R x y ∧ more = more')
    (h : (join sep (xs.map f)).toList ++ close :: rest =
      (join sep (ys.map f)).toList ++ close :: rest') :
    List.Forall₂ R xs ys ∧ rest = rest' := by
  induction xs generalizing ys with
  | nil =>
    cases ys with
    | nil => exact ⟨.nil, (List.cons.inj h).2⟩
    | cons y ys =>
      rw [List.map_cons, toList_join_append] at h
      exact absurd (by rw [← h]; rfl) (hy y List.mem_cons_self _)
  | cons x xs ih =>
    rw [List.map_cons, toList_join_append] at h
    cases ys with
    | nil => exact absurd (by rw [h]; rfl) (hx x List.mem_cons_self _)
    | cons y ys =>
      rw [List.map_cons, toList_join_append] at h
      obtain ⟨hR, htail⟩ := hpart x List.mem_cons_self y List.mem_cons_self _ _
        (stops_joinTail hsep hc hclose _ _) (stops_joinTail hsep hc hclose _ _) h
      -- both lists end here, or both go on
      cases xs with
      | nil =>
        cases ys with
        | nil => exact ⟨.cons hR .nil, (List.cons.inj htail).2⟩
        | cons z ys => exact absurd htail.symm (joinTail_cons_ne_nil hsep hne)
      | cons z xs =>
        cases ys with
        | nil => exact absurd htail (joinTail_cons_ne_nil hsep hne)
        | cons z' ys =>
          obtain ⟨hall, hrest⟩ := ih (fun x hmem => hx x (List.mem_cons_of_mem _ hmem))
            (fun y hmem => hy y (List.mem_cons_of_mem _ hmem))
            (fun x hmem y hmem' => hpart x (List.mem_cons_of_mem _ hmem) y
              (List.mem_cons_of_mem _ hmem')) (List.append_cancel_left htail)
          exact ⟨.cons hR hall, hrest⟩

end Text

/-! ## Values -/

namespace Val

/-- Null, booleans, numbers and texts, and the arrays and records of such values: no times and
nothing that exists in one process only. -/
inductive JsonLike : Val → Prop
  | scalar {v : Val} (h : v.IsScalar) : JsonLike v
  | str (s : String) : JsonLike (str s)
  | array {items : List Val} (h : ∀ v ∈ items, JsonLike v) : JsonLike (array items)
  | record {fields : List (String × Val)} (h : ∀ e ∈ fields, JsonLike e.2) :
    JsonLike (record fields)

/-- The mark that a display form begins with, if it is no word. -/
def opening : Val → Option Char
  | str _ => some '\x22'
  | array _ => some '['
  | record _ => some '\x7b'
  | _ => none

theorem IsScalar.opening_eq {v : Val} (h : v.IsScalar) : v.opening = none := by
  cases h <;> rfl

theorem JsonLike.opening_eq {v : Val} (h : v.JsonLike) (rest : List Char) :
    v.opening = (v.display.toList ++ rest).head?.filter (fun c => !isWordChar c) := by
  cases h with
  | scalar h =>
    obtain ⟨c, cs, hcs⟩ := List.exists_cons_of_ne_nil h.display_ne_nil
    have hc := h.isWordChar_display c (by rw [hcs]; exact List.mem_cons_self)
    simp [hcs, hc, h.opening_eq, Option.filter_some]
  | str s => simp [display, Text.quote, Text.quoteChars, opening, isWordChar, Option.filter_some]
  | array h => simp [display, opening, isWordChar, Option.filter_some]
  | record h => simp [display, opening, isWordChar, Option.filter_some]

theorem JsonLike.head?_ne {v : Val} (h : v.JsonLike) {c : Char} (hword : isWordChar c = false)
    (hc : c ∉ ['\x22', '[', '\x7b']) (rest : List Char) :
    (v.display.toList ++ rest).head? ≠ some c := by
  intro hhead
  have hopening := h.opening_eq rest
  rw [hhead, Option.filter_some, if_pos (by rw [hword]; rfl)] at hopening
  refine hc ?_
  unfold opening at hopening
  split at hopening
  case h_4 => cases hopening
  all_goals
    obtain rfl := Option.some.inj hopening
    decide

/-- The value is told from its display form, whatever follows that does not go on with a word. -/
def Told (v : Val) : Prop :=
  ∀ w : Val, w.JsonLike → ∀ rest rest' : List Char, Stops isWordChar rest →
    Stops isWordChar rest' → v.display.toList ++ rest = w.display.toList ++ rest' →
    v.equal w = true ∧ rest = rest'

theorem IsScalar.told {v : Val} (hv : v.IsScalar) : v.Told := by
  intro w hw rest rest' hrest hrest' h
  have hopening : w.opening = none := by
    rw [hw.opening_eq rest', ← h, ← (JsonLike.scalar hv).opening_eq, hv.opening_eq]
  cases hw with
  | scalar hw =>
    have hword : v.display.toList = w.display.toList := by
      rw [← takeWhile_append_of_stops hv.isWordChar_display hrest, h,
        takeWhile_append_of_stops hw.isWordChar_display hrest']
    refine ⟨?_, List.append_cancel_left (hword ▸ h)⟩
    rw [equal_iff_eqForm_eq, ← scalarOf_display hv, String.toList_injective hword,
      scalarOf_display hw]
  | str | array | record => cases hopening

theorem told_str (s : String) : (str s).Told := by
  intro w hw rest rest' _ _ h
  have hopening : w.opening = some '\x22' := by
    rw [hw.opening_eq rest', ← h, ← (JsonLike.str s).opening_eq, opening]
  cases hw with
  | scalar hw => rw [hw.opening_eq] at hopening; cases hopening
  | str t =>
    obtain ⟨rfl, hrest⟩ := Text.quote_append_inj h
    exact ⟨(equal_iff_eqForm_eq _ _).mpr rfl, hrest⟩
  | array | record => cases hopening

theorem displayItems_eq_map (items : List Val) : displayItems items = items.map display := by
  induction items with
  | nil => rfl
  | cons v items ih => rw [displayItems, ih, List.map_cons]

theorem displayFields_eq_map (fields : List (String × Val)) :
    displayFields fields = fields.map fun e => Text.quote e.1 ++ ": " ++ display e.2 := by
  induction fields with
  | nil => rfl
  | cons e fields ih => rw [displayFields, ih, List.map_cons]

theorem told_array {items : List Val} (hitems : ∀ v ∈ items, v.JsonLike)
    (ih : ∀ v ∈ items, v.Told) : (array items).Told := by
  intro w hw rest rest' _ _ h
  have hopening : w.opening = some '[' := by
    rw [hw.opening_eq rest', ← h, ← (JsonLike.array hitems).opening_eq, opening]
  cases hw with
  | scalar hw => rw [hw.opening_eq] at hopening; cases hopening
  | @array items' hitems' =>
    have hparts : (Text.join " " (items.map display)).toList ++ ']' :: rest =
        (Text.join " " (items'.map display)).toList ++ ']' :: rest' := by
      simpa [display, displayItems_eq_map] using h
    obtain ⟨hall, hrest⟩ := Text.join_inj rfl rfl rfl (by decide)
      (fun v hv => (hitems v hv).head?_ne rfl (by decide))
      (fun w hw => (hitems' w hw).head?_ne rfl (by decide))
      (fun v hv w hw => ih v hv w (hitems' w hw)) hparts
    exact ⟨equalItems_iff_forall₂.mpr hall, hrest⟩
  | str | record => cases hopening

theorem told_record {fields : List (String × Val)} (hfields : ∀ e ∈ fields, e.2.JsonLike)
    (ih : ∀ e ∈ fields, e.2.Told) : (record fields).Told := by
  intro w hw rest rest' _ _ h
  have hopening : w.opening = some '\x7b' := by
    rw [hw.opening_eq rest', ← h, ← (JsonLike.record hfields).opening_eq, opening]
  cases hw with
  | scalar hw => rw [hw.opening_eq] at hopening; cases hopening
  | @record fields' hfields' =>
    let field : String × Val → String := fun e => Text.quote e.1 ++ ": " ++ e.2.display
    have hparts : (Text.join ", " (fields.map field)).toList ++ '\x7d' :: rest =
        (Text.join ", " (fields'.map field)).toList ++ '\x7d' :: rest' := by
      simpa [display, displayFields_eq_map] using h
    have hquote : ∀ (e : String × Val) more, ((field e).toList ++ more).head? ≠ some '\x7d' := by
      intro e more
      simp [field, Text.quote, Text.quoteChars]
    have hpart : ∀ e ∈ fields, ∀ e' ∈ fields', ∀ more more', Stops isWordChar more →
        Stops isWordChar more' → (field e).toList ++ more = (field e').toList ++ more' →
        (e.1 = e'.1 ∧ e.2.equal e'.2 = true) ∧ more = more' := by
      intro e he e' he' more more' hmore hmore' hfield
      simp only [field, String.toList_append, List.append_assoc] at hfield
      obtain ⟨hkey, hvalue⟩ := Text.quote_append_inj hfield
      obtain ⟨hequal, hend⟩ :=
        ih e he e'.2 (hfields' e' he') more more' hmore hmore' (List.append_cancel_left hvalue)
      exact ⟨⟨hkey, hequal⟩, hend⟩
    obtain ⟨hall, hrest⟩ := Text.join_inj rfl rfl rfl (by decide) (fun e _ => hquote e)
      (fun e _ => hquote e) hpart hparts
    exact ⟨equalFields_iff_forall₂.mpr hall, hrest⟩
  | str | array => cases hopening

theorem JsonLike.told {v : Val} (h : v.JsonLike) : v.Told := by
  induction h with
  | scalar h => exact h.told
  | str s => exact told_str s
  | array h ih => exact told_array h ih
  | record h ih => exact told_record h ih

end Val

/-- Values made of null, booleans, numbers, texts, arrays and records, however deep, are equal if
their display forms are the same. -/
theorem display_is_unambiguous {v w : Val} (hv : v.JsonLike) (hw : w.JsonLike)
    (h : v.display = w.display) : v.equal w = true :=
  (hv.told w hw [] [] (by simp [Stops]) (by simp [Stops]) (by rw [h])).1

/-- The two zeros are displayed alike, and are equal, here beside marks of arrays, records and texts
that stand in a key and in a text. -/
theorem display_is_unambiguous_zeros :
    let v (negative : Bool) : Val := .record [("a\x22 [,]",
      .array [.float (.zero negative), .str "] \x7b\x22x\x22: 0.0", .int 1, .float .nan])]
    v true ≠ v false ∧ (v true).display = (v false).display ∧ (v true).equal (v false) = true := by
  intro v
  have hjson : ∀ negative, (v negative).JsonLike := by
    intro negative
    refine .record (List.forall_mem_singleton.mpr (.array ?_))
    simp only [List.forall_mem_cons, List.not_mem_nil, false_imp_iff, implies_true, and_true]
    exact ⟨.scalar (.float _), .str _, .scalar (.int _), .scalar (.float _)⟩
  have hne : v true ≠ v false := by
    intro h
    cases h
  have hdisplay : (v true).display = (v false).display := by decide +kernel
  exact ⟨hne, hdisplay, display_is_unambiguous (hjson _) (hjson _) hdisplay⟩

end Wordstack
