import Wordstack.Machine.Interp
import Wordstack.Proofs.Source.Printed

/-!
# Which words are literals

- **Integers** (`CanonicalDecimal`): decimal texts without zeros before other digits, plus signs and
  minus zero. The reader accepts these texts and no others, and each stands for the integer whose
  display form it is (`integer_literals_are_canonical`).
- **Marks** (`Literal.mark?`): what stands after the digits that a word begins with. It tells the
  kinds of literals apart, but for times and dates with digits; these differ in their lengths.
- **Kinds** (`literal_kinds_are_disjoint`): no two readers accept the same word, so the order in
  which they are tried makes no difference.
-/

namespace Wordstack

/-! ## Integers -/

/-- The decimal text of an integer. -/
inductive CanonicalDecimal : List Char → Int → Prop
  | zero : CanonicalDecimal ['0'] 0
  | positive {d : Char} {ds : List Char} (hd : d.isDigit = true) (hne : d ≠ '0')
    (hds : ∀ c ∈ ds, c.isDigit = true) : CanonicalDecimal (d :: ds) (Text.digitsToNat (d :: ds))
  | negative {d : Char} {ds : List Char} (hd : d.isDigit = true) (hne : d ≠ '0')
    (hds : ∀ c ∈ ds, c.isDigit = true) :
    CanonicalDecimal ('-' :: d :: ds) (-(Text.digitsToNat (d :: ds) : Int))

namespace CanonicalDecimal

variable {cs : List Char} {n : Int}

/-- A decimal text is the text that is written for its integer. -/
theorem toList_toString (h : CanonicalDecimal cs n) : (toString n).toList = cs := by
  rw [Text.toList_toString]
  cases h with
  | zero => rfl
  | @positive d ds hd hne hds =>
    rw [if_neg (by omega), Int.natAbs_natCast]
    exact Text.toDigits_digitsToNat hd hds fun h => absurd h hne
  | @negative d ds hd hne hds =>
    have htext := Text.toDigits_digitsToNat hd hds fun h => absurd h hne
    have hpos : Text.digitsToNat (d :: ds) ≠ 0 := by
      intro hzero
      rw [hzero] at htext
      exact hne (List.cons.inj htext).1.symm
    rw [if_pos (by omega), Int.natAbs_neg, Int.natAbs_natCast, htext]

end CanonicalDecimal

namespace Literal

/-- The digits of a natural number are those of zero, or begin with another digit. -/
theorem of_isCanonicalNat {cs : List Char} (h : isCanonicalNat cs = true) :
    cs = ['0'] ∨
      ∃ d ds, cs = d :: ds ∧ d.isDigit = true ∧ d ≠ '0' ∧ ∀ c ∈ ds, c.isDigit = true := by
  simp only [isCanonicalNat, Text.allDigits, Bool.and_eq_true, Bool.or_eq_true, beq_iff_eq] at h
  obtain ⟨⟨hne, hdigits⟩, hzero⟩ := h
  cases cs with
  | nil => cases hne
  | cons d ds =>
    obtain ⟨hd, hds⟩ := List.forall_mem_cons.mp (List.all_eq_true.mp hdigits)
    refine hzero.imp id fun h => ⟨d, ds, rfl, hd, ?_, hds⟩
    simpa using h

theorem canonicalDecimal_of_int {text : String} {v : Val} (h : int text = some v) :
    ∃ n, v = .int n ∧ CanonicalDecimal text.toList n := by
  unfold int at h
  simp only [Bool.and_eq_true, Option.ite_none_right_eq_some, Option.some.injEq] at h
  obtain ⟨⟨hnat, hminus⟩, rfl⟩ := h
  refine ⟨_, rfl, ?_⟩
  generalize text.toList = cs at hnat hminus ⊢
  split at hnat
  case isTrue hsign =>
    obtain ⟨ds, rfl⟩ : ∃ ds, cs = '-' :: ds := by
      cases cs with
      | nil => cases hsign
      | cons c ds => exact ⟨ds, by simpa using hsign⟩
    obtain hzero | ⟨d, ds, rfl, hd, hne, hds⟩ := of_isCanonicalNat hnat
    · simp [show ds = ['0'] from hzero] at hminus
    · exact .negative hd hne hds
  case isFalse hsign =>
    rw [Text.toInt_of_head? (by simpa using hsign)]
    obtain rfl | ⟨d, ds, rfl, hd, hne, hds⟩ := of_isCanonicalNat hnat
    · exact .zero
    · exact .positive hd hne hds

theorem int_iff {text : String} {n : Int} : int text = some (.int n) ↔ text = toString n := by
  constructor
  · intro h
    obtain ⟨m, hm, hcanonical⟩ := canonicalDecimal_of_int h
    cases hm
    exact String.toList_inj.mp hcanonical.toList_toString.symm
  · rintro rfl
    exact int_toString n

end Literal

/-- A text is a literal for an integer if and only if it is the display form of the integer, which
is its decimal text. So each integer has exactly one literal, and each literal is what its value is
displayed as. -/
theorem integer_literals_are_canonical (text : String) (n : Int) :
    (Literal.int text = some (.int n) ↔ text = (Val.int n).display) ∧
      (Literal.int text = some (.int n) ↔ CanonicalDecimal text.toList n) ∧
      (∃! t, Literal.int t = some (.int n)) ∧
      ∀ v, Literal.int text = some v → text = v.display := by
  have hcanonical : CanonicalDecimal text.toList n → Literal.int text = some (.int n) := fun h =>
    Literal.int_iff.mpr (String.toList_inj.mp h.toList_toString.symm)
  refine ⟨Literal.int_iff, ⟨fun h => ?_, hcanonical⟩, ?_, fun v h => ?_⟩
  · obtain ⟨m, hm, h⟩ := Literal.canonicalDecimal_of_int h
    cases hm
    exact h
  · exact ⟨toString n, Literal.int_toString n, fun t ht => Literal.int_iff.mp ht⟩
  · obtain ⟨m, rfl, -⟩ := Literal.canonicalDecimal_of_int h
    exact Literal.int_iff.mp h

/-- Zeros before other digits, plus signs and minus zero are none of the text of an integer. -/
example : ∀ text ∈ ["007", "+5", "-0", "1.0", "-", ""], (Literal.int text).isNone = true := by
  decide

/-! ## Marks -/

namespace Literal

/-- The characters after a sign. -/
def unsigned : List Char → List Char
  | '-' :: cs | '+' :: cs => cs
  | cs => cs

/-- What stands after a sign and digits. -/
def mark? (text : String) : Option Char := ((unsigned text.toList).dropWhile Char.isDigit).head?

theorem unsigned_eq_self {cs : List Char} (hminus : ∀ ds, cs ≠ '-' :: ds)
    (hplus : ∀ ds, cs ≠ '+' :: ds) : unsigned cs = cs := by
  unfold unsigned
  split
  · exact absurd rfl (hminus _)
  · exact absurd rfl (hplus _)
  · rfl

theorem unsigned_of_isDigit {c : Char} (h : c.isDigit = true) (cs : List Char) :
    unsigned (c :: cs) = c :: cs := by
  refine unsigned_eq_self (fun ds heq => ?_) fun ds heq => ?_
  · rw [(List.cons.inj heq).1] at h
    cases h
  · rw [(List.cons.inj heq).1] at h
    cases h

/-- The mark after digits that no sign stands before. -/
theorem mark?_of_digits {text : String} {ds more : List Char} (htext : text.toList = ds ++ more)
    (hne : ds ≠ []) (hds : ∀ c ∈ ds, c.isDigit = true) (hmore : Stops Char.isDigit more) :
    mark? text = more.head? := by
  obtain ⟨d, rest, rfl⟩ := List.exists_cons_of_ne_nil hne
  rw [mark?, htext, List.cons_append, unsigned_of_isDigit (hds d List.mem_cons_self),
    ← List.cons_append, dropWhile_append_of_stops hds hmore]

theorem mark?_of_bool {text : String} {v : Val} (h : bool text = some v) :
    mark? text = some 'T' ∨ mark? text = some 'F' := by
  unfold bool at h
  split at h
  case isTrue htrue =>
    rw [beq_iff_eq.mp htrue]
    exact .inl (by decide)
  case isFalse =>
    split at h
    case isTrue hfalse =>
      rw [beq_iff_eq.mp hfalse]
      exact .inr (by decide)
    case isFalse => cases h

theorem mark?_of_int {text : String} {v : Val} (h : int text = some v) : mark? text = none := by
  obtain ⟨n, -, hcanonical⟩ := canonicalDecimal_of_int h
  have hnone : ∀ ds : List Char, (∀ c ∈ ds, c.isDigit = true) →
      (ds.dropWhile Char.isDigit).head? = none := by
    intro ds hds
    rw [List.dropWhile_eq_nil_iff.mpr hds]
    rfl
  rw [mark?]
  generalize text.toList = cs at hcanonical
  cases hcanonical with
  | zero => rfl
  | positive hd hne hds =>
    rw [unsigned_of_isDigit hd]
    exact hnone _ (List.forall_mem_cons.mpr ⟨hd, hds⟩)
  | negative hd hne hds => exact hnone _ (List.forall_mem_cons.mpr ⟨hd, hds⟩)

theorem mark?_of_float {text : String} {v : Val} (h : float text = some v) :
    mark? text = some '.' := by
  unfold float at h
  rw [mark?]
  generalize text.toList = cs at h
  simp only [Option.ite_none_right_eq_some, beq_iff_eq] at h
  split at h
  · exact h.1
  · exact h.1
  · rename_i hminus hplus
    rw [unsigned_eq_self hminus hplus]
    exact h.1

theorem of_expect {c : Char} {cs rest : List Char} (h : expect c cs = some rest) :
    cs = c :: rest := by
  cases cs with
  | nil => cases h
  | cons x cs =>
    simp only [expect, beq_iff_eq, Option.ite_none_right_eq_some, Option.some.injEq] at h
    obtain ⟨rfl, rfl⟩ := h
    rfl

theorem of_readDigits {n k : Nat} {cs rest : List Char}
    (h : Calendar.readDigits n cs = some (k, rest)) :
    ∃ ds, cs = ds ++ rest ∧ ds.length = n ∧ ∀ c ∈ ds, c.isDigit = true := by
  simp only [Calendar.readDigits, Option.ite_none_right_eq_some, Bool.and_eq_true, beq_iff_eq,
    Option.some.injEq, Prod.mk.injEq] at h
  obtain ⟨⟨hlength, hdigits⟩, -, rfl⟩ := h
  exact ⟨cs.take n, (List.take_append_drop n cs).symm, hlength, List.all_eq_true.mp hdigits⟩

/-- Digits and the character that must follow them. -/
theorem of_expectDigits {n : Nat} {c : Char} {cs rest : List Char}
    (h : (expectDigits n cs).bind (expect c) = some rest) :
    ∃ ds, cs = ds ++ c :: rest ∧ ds.length = n ∧ ∀ c ∈ ds, c.isDigit = true := by
  obtain ⟨more, hdigits, hc⟩ := Option.bind_eq_some_iff.mp h
  obtain ⟨⟨k, rest'⟩, hread, rfl⟩ := Option.map_eq_some_iff.mp hdigits
  obtain ⟨ds, rfl, hlength, hds⟩ := of_readDigits hread
  exact ⟨ds, congrArg (ds ++ ·) (of_expect hc), hlength, hds⟩

/-- A time begins with the digits of a year, and a `T` follows its date. -/
theorem of_datetime {zone text : String} {v : Val} (h : datetime zone text = some v) :
    mark? text = some '-' ∧ text.toList[10]? = some 'T' := by
  have hform : ∃ b, datetimeOffset? text.toList = some b := by
    unfold datetime at h
    split at h
    · exact ⟨_, ‹_›⟩
    · exact ⟨_, ‹_›⟩
    · cases h
  obtain ⟨b, hform⟩ := hform
  unfold datetimeOffset? at hform
  obtain ⟨afterYear, hyear, hform⟩ := Option.bind_eq_some_iff.mp hform
  obtain ⟨afterMonth, hmonth, hform⟩ := Option.bind_eq_some_iff.mp hform
  obtain ⟨afterDay, hday, -⟩ := Option.bind_eq_some_iff.mp hform
  obtain ⟨year, htext, hlength, hdigits⟩ := of_expectDigits hyear
  obtain ⟨month, rfl, hmonthLength, -⟩ := of_expectDigits hmonth
  obtain ⟨day, rfl, hdayLength, -⟩ := of_expectDigits hday
  constructor
  · rw [mark?_of_digits htext (List.ne_nil_of_length_pos (by omega)) hdigits
      (by simp [Stops, show '-'.isDigit = false from rfl])]
    rfl
  · rw [htext]
    simp [List.getElem?_append, hlength, hmonthLength, hdayLength]

theorem of_datePart {n : Nat} {wildcard today part : String} {cs rest : List Char}
    (h : datePart n wildcard today cs = some (part, rest)) (hn : wildcard.toList.length = n) :
    ∃ p, cs = p ++ rest ∧ p.length = n ∧ ((∀ c ∈ p, c.isDigit = true) ∨ p = wildcard.toList) := by
  unfold datePart at h
  split at h
  · rename_i k more hread
    cases h
    obtain ⟨ds, rfl, hlength, hds⟩ := of_readDigits hread
    exact ⟨ds, rfl, hlength, .inl hds⟩
  · split at h
    · rename_i hwild
      cases h
      have htake : cs.take n = wildcard.toList := by simpa using hwild
      exact ⟨cs.take n, (List.take_append_drop n cs).symm, htake ▸ hn, .inr htake⟩
    · cases h

/-- A date is a year, a month and a day with dashes between them; the year is digits or its
wildcard. -/
theorem of_dateParts {today parts : String × String × String} {text : String}
    (h : dateParts today text = some parts) :
    ∃ year month day, text.toList = year ++ '-' :: (month ++ '-' :: day) ∧
      ((∀ c ∈ year, c.isDigit = true) ∨ year = "YYYY".toList) ∧
      year.length = 4 ∧ month.length = 2 ∧ day.length = 2 := by
  unfold dateParts at h
  obtain ⟨⟨_, afterYear⟩, hyear, h⟩ := Option.bind_eq_some_iff.mp h
  obtain ⟨beforeMonth, hdash, h⟩ := Option.bind_eq_some_iff.mp h
  obtain ⟨⟨_, afterMonth⟩, hmonth, h⟩ := Option.bind_eq_some_iff.mp h
  obtain ⟨beforeDay, hdash', h⟩ := Option.bind_eq_some_iff.mp h
  obtain ⟨⟨_, afterDay⟩, hday, hlast⟩ := Option.bind_eq_some_iff.mp h
  obtain ⟨year, htext, hyearLength, hdigits⟩ := of_datePart hyear rfl
  obtain ⟨month, rfl, hmonthLength, -⟩ := of_datePart hmonth rfl
  obtain ⟨day, rfl, hdayLength, -⟩ := of_datePart hday rfl
  have hend : afterDay = [] := by simpa using (Option.ite_none_right_eq_some.mp hlast).1
  rw [of_expect hdash, of_expect hdash', hend, List.append_nil] at htext
  exact ⟨year, month, day, htext, hdigits, hyearLength, hmonthLength, hdayLength⟩

/-- A date begins with a year and ends after its day. -/
theorem of_date {zone text : String} {now : Int} {v : Val} (h : date zone now text = some v) :
    (mark? text = some '-' ∨ mark? text = some 'Y') ∧ text.toList[10]? = none := by
  obtain ⟨parts, hparts, -⟩ := Option.bind_eq_some_iff.mp h
  obtain ⟨year, month, day, htext, hdigits, hyear, hmonth, hday⟩ := of_dateParts hparts
  refine ⟨?_, ?_⟩
  · obtain hdigits | rfl := hdigits
    · refine .inl ?_
      rw [mark?_of_digits htext (List.ne_nil_of_length_pos (by omega)) hdigits
        (by simp [Stops, show '-'.isDigit = false from rfl])]
      rfl
    · refine .inr ?_
      rw [mark?, htext]
      rfl
  · rw [List.getElem?_eq_none_iff, htext]
    simp only [List.length_append, List.length_cons]
    omega

end Literal

/-! ## Kinds -/

/-- Of readers that no two accept the same text of, it makes no difference which one is tried first:
any value that is found is the one of the reader that accepts the text. -/
theorem findSome?_of_disjoint {readers : List LiteralReader} {text : String} {v : Val}
    (h : readers.Pairwise fun r r' => r text = none ∨ r' text = none) :
    (readers.findSome? fun r => r text) = some v ↔ ∃ r ∈ readers, r text = some v := by
  constructor
  · exact List.exists_of_findSome?_eq_some
  · rintro ⟨r, hr, hv⟩
    obtain ⟨before, after, rfl⟩ := List.append_of_mem hr
    have hbefore : (before.findSome? fun r => r text) = none := by
      refine List.findSome?_eq_none_iff.mpr fun r' hr' => ?_
      have hpair := (List.pairwise_append.mp h).2.2 r' hr' r List.mem_cons_self
      rw [hv] at hpair
      exact hpair.resolve_right nofun
    rw [List.findSome?_append, hbefore, List.findSome?_cons, hv]
    rfl

/-- The kinds of literals. -/
inductive LiteralKind where
  | bool
  | int
  | float
  | datetime
  | date
deriving DecidableEq

namespace LiteralKind

/-- The reader of a kind. -/
def reader (zone : String) (now : Int) : LiteralKind → LiteralReader
  | bool => Literal.bool
  | int => Literal.int
  | float => Literal.float
  | datetime => Literal.datetime zone
  | date => Literal.date zone now

/-- The only kind that a text can be a literal of. -/
def of (text : String) : LiteralKind :=
  match Literal.mark? text with
  | none => int
  | some '.' => float
  | some 'T' | some 'F' => bool
  | some _ => if text.toList[10]?.isSome then datetime else date

theorem eq_of_reader {zone text : String} {now : Int} {k : LiteralKind} {v : Val}
    (h : k.reader zone now text = some v) : k = of text := by
  unfold of
  cases k with
  | bool =>
    obtain hmark | hmark := Literal.mark?_of_bool h
    · rw [hmark]
      rfl
    · rw [hmark]
      rfl
  | int => rw [Literal.mark?_of_int h]
  | float =>
    rw [Literal.mark?_of_float h]
    rfl
  | datetime =>
    obtain ⟨hmark, hlong⟩ := Literal.of_datetime h
    rw [hmark, hlong]
    rfl
  | date =>
    obtain ⟨hmark | hmark, hshort⟩ := Literal.of_date h
    · rw [hmark, hshort]
      rfl
    · rw [hmark, hshort]
      rfl

end LiteralKind

theorem Literal.standard_disjoint (zone : String) (now : Int) (text : String) :
    (standard zone now).Pairwise fun r r' => r text = none ∨ r' text = none := by
  have hkinds : [LiteralKind.bool, .int, .float, .datetime, .date].Nodup := by decide
  refine (List.pairwise_map (f := LiteralKind.reader zone now)).mpr
    (hkinds.imp fun {k k'} hne => ?_)
  by_contra hboth
  obtain ⟨hk, hk'⟩ := not_or.mp hboth
  obtain ⟨v, hv⟩ := Option.ne_none_iff_exists'.mp hk
  obtain ⟨w, hw⟩ := Option.ne_none_iff_exists'.mp hk'
  exact hne ((LiteralKind.eq_of_reader hv).trans (LiteralKind.eq_of_reader hw).symm)

/-- At most one of the standard readers accepts a text. So an interpreter that tries them in any
order, and whatever others after them, finds the same literal as in the usual order: the one that a
standard reader accepts, if one does. -/
theorem literal_kinds_are_disjoint (zone : String) (now : Int) (text : String) :
    ((Literal.standard zone now).Pairwise fun r r' => r text = none ∨ r' text = none) ∧
      ∀ (i : Interp) (order more : List LiteralReader), order.Perm (Literal.standard zone now) →
        i.readers = order ++ more →
        i.literal? text = { i with readers := Literal.standard zone now ++ more }.literal? text ∧
        ∀ r ∈ Literal.standard zone now, ∀ v, r text = some v → i.literal? text = some v := by
  have hdisjoint := Literal.standard_disjoint zone now text
  refine ⟨hdisjoint, fun i order more hperm hi => ?_⟩
  have hfound : (order.findSome? fun r => r text) =
      (Literal.standard zone now).findSome? fun r => r text := by
    refine Option.ext fun v => ?_
    rw [findSome?_of_disjoint hdisjoint,
      findSome?_of_disjoint (hperm.symm.pairwise hdisjoint fun h => h.symm)]
    exact exists_congr fun r => and_congr_left' hperm.mem_iff
  have hliteral : i.literal? text =
      { i with readers := Literal.standard zone now ++ more }.literal? text := by
    rw [Interp.literal?, Interp.literal?, hi, List.findSome?_append, List.findSome?_append, hfound]
  refine ⟨hliteral, fun r hr v hv => ?_⟩
  rw [hliteral, Interp.literal?, List.findSome?_append,
    (findSome?_of_disjoint hdisjoint).mpr ⟨r, hr, hv⟩, Option.some_or]

end Wordstack
