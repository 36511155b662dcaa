import Mathlib.Data.Nat.Factorization.Basic
import Wordstack.Proofs.Binary64.Shortest
import Wordstack.Proofs.Text.Spans
import Wordstack.Proofs.Wire.Sent

/-!
# Texts of numbers

- **Reading** (`readDecimal_whole`, `readDecimal_places`): digits, a point, more digits and an
  exponent.
- **Writing** (`Written`): the four ways to write digits with the decimal point at a place.
- **Round trip** (`ofText_toText`, `ofText_onePlace`): the texts of a number are read as the number,
  without the sign of a zero.
- **Integers** (`exists_mem_onePlace`): no text of a number is that of an integer.
-/

namespace Wordstack

namespace Binary64

/-! ## Reading -/

/-- The exponent of a decimal in writing. -/
def exponentText (e : Int) : List Char :=
  'e' :: (if e < 0 then '-' else '+') :: Nat.toDigits 10 e.natAbs

theorem readExponent_exponentText (e : Int) : readExponent (exponentText e) = some e := by
  unfold exponentText
  split
  case isTrue h =>
    simp only [readExponent, Text.allDigits_toDigits, Text.digitsToNat_toDigits, beq_self_eq_true,
      Bool.true_or, if_true, Option.some.injEq]
    omega
  case isFalse h =>
    simp only [readExponent, Text.allDigits_toDigits, Text.digitsToNat_toDigits, beq_self_eq_true,
      Bool.true_or, if_true, Option.some.injEq]
    omega

variable {whole places more : List Char} {e : Int}

/-- Digits without a point. -/
theorem readDecimal_whole (negative : Bool) (hw : ∀ c ∈ whole, c.isDigit = true)
    (hne : whole ≠ []) (hstop : Stops Char.isDigit more) (hpoint : more.head? ≠ some '.')
    (he : readExponent more = some e) :
    readDecimal negative (whole ++ more) =
      some (ofDecimal negative (Text.digitsToNat whole) e) := by
  unfold readDecimal
  dsimp only
  rw [takeWhile_append_of_stops hw hstop, dropWhile_append_of_stops hw hstop]
  split
  case h_1 => simp at hpoint
  case h_2 => simp [hne, he]

/-- Digits with a point among them. -/
theorem readDecimal_places (negative : Bool) (hw : ∀ c ∈ whole, c.isDigit = true)
    (hne : whole ≠ []) (hp : ∀ c ∈ places, c.isDigit = true) (hstop : Stops Char.isDigit more)
    (he : readExponent more = some e) :
    readDecimal negative (whole ++ '.' :: (places ++ more)) =
      some (ofDecimal negative (Text.digitsToNat (whole ++ places)) (e - places.length)) := by
  have hpoint : Stops Char.isDigit ('.' :: (places ++ more)) := by simp [Stops]
  unfold readDecimal
  dsimp only
  rw [takeWhile_append_of_stops hw hpoint, dropWhile_append_of_stops hw hpoint]
  simp only [takeWhile_append_of_stops hp hstop, dropWhile_append_of_stops hp hstop]
  simp [hne, he]

/-! ## Writing -/

/-- The ways to write digits with the decimal point after the first `n` of them. -/
inductive Written (ds : List Char) (n : Int) : List Char → Prop
  | whole {z : Nat} (hn : n = ds.length + z) (hlimit : n ≤ 21) :
    Written ds n (ds ++ List.replicate z '0')
  | point {front back : List Char} (hds : ds = front ++ back) (hfront : front ≠ [])
    (hn : n = front.length) : Written ds n (front ++ '.' :: back)
  | small {z : Nat} (hn : n = -z) : Written ds n ('0' :: '.' :: (List.replicate z '0' ++ ds))
  | exponentOnly {d : Char} (hds : ds = [d]) : Written ds n (d :: exponentText (n - 1))
  | exponent {d : Char} {rest : List Char} (hds : ds = d :: rest) :
    Written ds n (d :: '.' :: (rest ++ exponentText (n - 1)))

theorem written_layout {x : Decimal} (hne : x.digits.1 ≠ []) :
    Written x.digits.1 x.digits.2 x.layout := by
  unfold Decimal.layout
  generalize x.digits = p at hne ⊢
  obtain ⟨ds, n⟩ := p
  dsimp only at hne ⊢
  split
  case isTrue h =>
    obtain ⟨z, hz⟩ := Int.eq_ofNat_of_zero_le (Int.sub_nonneg_of_le h.1)
    rw [hz, Int.toNat_natCast]
    exact .whole (by omega) h.2
  case isFalse hwhole =>
    split
    case isTrue h =>
      have hlength : (ds.take n.toNat).length = n.toNat := List.length_take_of_le (by omega)
      refine .point (List.take_append_drop _ _).symm ?_ (by omega)
      exact List.ne_nil_of_length_pos (by omega)
    case isFalse hpoint =>
      split
      case isTrue h =>
        exact .small (by omega)
      case isFalse hsmall =>
        split
        case h_1 => exact .exponentOnly rfl
        case h_2 => exact .exponent rfl
        case h_3 => exact absurd rfl hne

theorem getLast?_toDigits (c : Nat) :
    (Nat.toDigits 10 c).getLast? = some (c % 10).digitChar := by
  rw [Nat.toDigits_eq_if (by decide)]
  split
  case isTrue h => rw [Nat.mod_eq_of_lt h, List.getLast?_singleton]
  case isFalse => rw [List.getLast?_concat]

/-- The digits of a decimal are those of the number that is left when all factors ten are taken
out. -/
theorem digits_eq {c j : Nat} (hc : ¬ 10 ∣ c) (e : Int) :
    (⟨10 ^ j * c, e⟩ : Decimal).digits =
      (Nat.toDigits 10 c, (Nat.toDigits 10 c).length + (e + j)) := by
  have hpos : 0 < c := Nat.pos_of_ne_zero fun h => hc (h ▸ Nat.dvd_zero 10)
  have hzeros : Nat.toDigits 10 (10 ^ j * c) = Nat.toDigits 10 c ++ List.replicate j '0' := by
    rw [← Nat.ofDigitChars_replicate_zero, Text.toDigits_ofDigitChars hpos]
    exact fun d hd => List.eq_of_mem_replicate hd ▸ rfl
  have hlast : Stops (· == '0') (Nat.toDigits 10 c).reverse := by
    intro d hd
    rw [List.head?_reverse, getLast?_toDigits, Option.mem_some_iff] at hd
    rw [beq_eq_false_iff_ne, ← hd]
    exact fun h => hc (Nat.dvd_of_mod_eq_zero (Nat.digitChar_eq_zero.mp h))
  have hall : ∀ d ∈ List.replicate j '0', (d == '0') = true := fun d hd =>
    beq_iff_eq.mpr (List.eq_of_mem_replicate hd)
  unfold Decimal.digits
  dsimp only
  rw [hzeros, List.reverse_append, List.reverse_replicate, dropWhile_append_of_stops hall hlast,
    List.reverse_reverse, List.length_append, List.length_replicate]
  congr 1
  omega

/-! ## Round trip -/

theorem isDigit_of_mem {c : Nat} {d : Char} (h : d ∈ Nat.toDigits 10 c) : d.isDigit = true :=
  Nat.isDigit_of_mem_toDigits (by decide) (by decide) h

/-- Digits in writing are read as what they stand for. -/
theorem Written.readDecimal {m k c : Nat} {e : Int} {cs : List Char} (hm : m ≠ 0)
    (hu : CanonicalUnits m k) (hread : readsBack m k ⟨c, e⟩ = true)
    (h : Written (Nat.toDigits 10 c) ((Nat.toDigits 10 c).length + e) cs) (negative : Bool) :
    readDecimal negative cs = some (.finite negative m k hu) := by
  have hdigits : ∀ d ∈ Nat.toDigits 10 c, d.isDigit = true := fun d => isDigit_of_mem
  have hvalue := Text.digitsToNat_toDigits c
  have hne : Nat.toDigits 10 c ≠ [] := Nat.toDigits_ne_nil
  have hof : ∀ e', e' = e → ofDecimal negative c e' = .finite negative m k hu := fun e' he =>
    ofDecimal_of_readsBack hm hu (he ▸ hread) negative
  have hend : Stops Char.isDigit [] := by simp [Stops]
  have hexponent : ∀ n, Stops Char.isDigit (exponentText n) := fun n => by
    simp [Stops, exponentText]
  generalize Nat.toDigits 10 c = ds at h hdigits hvalue hne
  cases h with
  | @whole z hn hlimit =>
    have hzeros : ∀ d ∈ List.replicate z '0', d.isDigit = true := fun d hd =>
      List.eq_of_mem_replicate hd ▸ rfl
    have hwhole := readDecimal_whole negative (List.forall_mem_append.mpr ⟨hdigits, hzeros⟩)
      (by simp [hne]) hend (by simp) rfl
    have hshifted : Text.digitsToNat (ds ++ List.replicate z '0') = c * 10 ^ z := by
      rw [← hvalue, Nat.mul_comm, ← Nat.ofDigitChars_replicate_zero]
      exact Nat.ofDigitChars_append 0
    have he : e = (0 : Int) + z := by omega
    rw [List.append_nil] at hwhole
    rw [hwhole, hshifted, ofDecimal_of_readsBack hm hu (readsBack_shift.mpr (he ▸ hread))]
  | @point front back hds hfront hn =>
    subst hds
    obtain ⟨hf, hb⟩ := List.forall_mem_append.mp hdigits
    have hplaces := readDecimal_places negative hf hfront hb hend rfl
    rw [List.append_nil, hvalue] at hplaces
    rw [hplaces, hof]
    simp only [List.length_append] at hn
    omega
  | @small z hn =>
    have hzeros : ∀ d ∈ List.replicate z '0', d.isDigit = true := fun d hd =>
      List.eq_of_mem_replicate hd ▸ rfl
    have hwhole : ∀ d ∈ ['0'], d.isDigit = true := List.forall_mem_singleton.mpr rfl
    have hplaces := readDecimal_places negative hwhole (by simp)
      (List.forall_mem_append.mpr ⟨hzeros, hdigits⟩) hend rfl
    have hleading : Text.digitsToNat (['0'] ++ (List.replicate z '0' ++ ds)) = c := by
      have hnothing : Nat.ofDigitChars 10 (List.replicate (z + 1) '0') 0 = 0 :=
        Nat.ofDigitChars_replicate_zero
      rw [← hvalue, ← List.append_assoc]
      exact (Nat.ofDigitChars_append 0).trans (congrArg _ hnothing)
    rw [List.append_nil, hleading] at hplaces
    refine hplaces.trans (congrArg some (hof _ ?_))
    rw [List.length_append, List.length_replicate]
    omega
  | @exponentOnly d hds =>
    subst hds
    have hwhole := readDecimal_whole negative hdigits hne (hexponent _) (by simp [exponentText])
      (readExponent_exponentText (([d].length : Int) + e - 1))
    rw [hvalue] at hwhole
    refine hwhole.trans (congrArg some (hof _ ?_))
    simp
  | @exponent d rest hds =>
    subst hds
    obtain ⟨hd, hrest⟩ := List.forall_mem_cons.mp hdigits
    have hplaces := readDecimal_places negative (List.forall_mem_singleton.mpr hd) (by simp)
      hrest (hexponent _) (readExponent_exponentText (((d :: rest).length : Int) + e - 1))
    have hall : [d] ++ rest = d :: rest := rfl
    rw [hall, hvalue] at hplaces
    refine hplaces.trans (congrArg some (hof _ ?_))
    rw [List.length_cons]
    omega

/-- What a decimal is written as, and the decimal without the zeros at its end. -/
theorem exists_written {x : Decimal} (hx : x.c ≠ 0) :
    ∃ c e, x.digits.2 = (Nat.toDigits 10 c).length + e ∧
      Written (Nat.toDigits 10 c) ((Nat.toDigits 10 c).length + e) x.layout ∧
      ∀ m k, readsBack m k x = true ↔ readsBack m k ⟨c, e⟩ = true := by
  obtain ⟨c, e⟩ := x
  obtain ⟨j, c, hten, rfl⟩ := Nat.exists_eq_pow_mul_and_not_dvd hx 10 (by decide)
  have hdigits := digits_eq hten e (j := j)
  have hne : (⟨10 ^ j * c, e⟩ : Decimal).digits.1 ≠ [] := by
    rw [hdigits]
    exact Nat.toDigits_ne_nil
  have hwritten := written_layout hne
  refine ⟨c, e + j, by rw [hdigits], by rwa [hdigits] at hwritten, fun m k => ?_⟩
  rw [Nat.mul_comm, readsBack_shift]

/-- The characters of decimals in writing. -/
def isDecimalChar (c : Char) : Bool :=
  c.isDigit || c == '.' || c == 'e' || c == '+' || c == '-'

theorem isDecimalChar_of_isDigit {c : Char} (h : c.isDigit = true) : isDecimalChar c = true := by
  simp [isDecimalChar, h]

theorem exponentText_chars (e : Int) : ∀ c ∈ exponentText e, isDecimalChar c = true := by
  refine List.forall_mem_cons.mpr ⟨rfl, List.forall_mem_cons.mpr ⟨?_, fun c hc => ?_⟩⟩
  · split <;> rfl
  · exact isDecimalChar_of_isDigit (isDigit_of_mem hc)

/-- What is written begins with a digit. -/
theorem Written.head {ds cs : List Char} {n : Int} (h : Written ds n cs)
    (hne : ds ≠ []) (hds : ∀ d ∈ ds, d.isDigit = true) :
    ∃ d more, cs = d :: more ∧ d.isDigit = true ∧ ∀ c ∈ more, isDecimalChar c = true := by
  have hchars : ∀ {es : List Char}, (∀ d ∈ es, d.isDigit = true) →
      ∀ d ∈ es, isDecimalChar d = true :=
    fun h d hd => isDecimalChar_of_isDigit (h d hd)
  have hzeros : ∀ z, ∀ d ∈ List.replicate z '0', isDecimalChar d = true := fun z d hd =>
    List.eq_of_mem_replicate hd ▸ rfl
  cases h with
  | @whole z =>
    obtain ⟨d, rest, rfl⟩ := List.exists_cons_of_ne_nil hne
    obtain ⟨hd, hrest⟩ := List.forall_mem_cons.mp hds
    exact ⟨d, _, rfl, hd, List.forall_mem_append.mpr ⟨hchars hrest, hzeros z⟩⟩
  | @point front back hsplit hfront =>
    obtain ⟨d, rest, rfl⟩ := List.exists_cons_of_ne_nil hfront
    rw [hsplit, List.forall_mem_append] at hds
    obtain ⟨hd, hrest⟩ := List.forall_mem_cons.mp hds.1
    exact ⟨d, _, rfl, hd, List.forall_mem_append.mpr ⟨hchars hrest,
      List.forall_mem_cons.mpr ⟨rfl, hchars hds.2⟩⟩⟩
  | @small z =>
    exact ⟨'0', _, rfl, rfl, List.forall_mem_cons.mpr ⟨rfl,
      List.forall_mem_append.mpr ⟨hzeros z, hchars hds⟩⟩⟩
  | @exponentOnly d hd =>
    exact ⟨d, _, rfl, hds d (hd ▸ List.mem_singleton_self d), exponentText_chars _⟩
  | @exponent d rest hd =>
    rw [hd, List.forall_mem_cons] at hds
    exact ⟨d, _, rfl, hds.1, List.forall_mem_cons.mpr ⟨rfl,
      List.forall_mem_append.mpr ⟨hchars hds.2, exponentText_chars _⟩⟩⟩

theorem isBlank_of_isDecimalChar {c : Char} (h : isDecimalChar c = true) :
    Text.isBlank c = false := by
  have hrange : 0x21 ≤ c.toNat ∧ c.toNat ≤ 0x7E := by
    simp only [isDecimalChar, Bool.or_eq_true, beq_iff_eq] at h
    obtain (((hdigit | rfl) | rfl) | rfl) | rfl := h
    · obtain ⟨hlow, hhigh⟩ := Char.isDigit_iff_toNat.mp hdigit
      exact ⟨le_trans (by decide) hlow, hhigh.trans (by decide)⟩
    all_goals decide
  exact Text.isBlank_of_visible hrange.1 hrange.2

/-- A decimal in writing after its sign is read as the decimal. -/
theorem ofText_ofList {negative : Bool} {d : Char} {more : List Char} (hd : d.isDigit = true)
    (hmore : ∀ c ∈ more, isDecimalChar c = true) :
    ofText (String.ofList ((if negative then ['-'] else []) ++ d :: more)) =
      (readDecimal negative (d :: more)).getD .nan := by
  have hsigned :
      readSigned negative (d :: more) = (readDecimal negative (d :: more)).getD .nan := by
    rw [readSigned, if_neg]
    simp only [beq_iff_eq]
    rintro h
    obtain rfl : d = 'I' := (List.cons.inj h).1
    cases hd
  have hblank : ∀ c ∈ (if negative then ['-'] else []) ++ d :: more, Text.isBlank c = false := by
    refine List.forall_mem_append.mpr ⟨fun c hc => ?_, List.forall_mem_cons.mpr ⟨?_, ?_⟩⟩
    · cases negative
      · cases hc
      · exact List.mem_singleton.mp hc ▸ rfl
    · exact isBlank_of_isDecimalChar (isDecimalChar_of_isDigit hd)
    · exact fun c hc => isBlank_of_isDecimalChar (hmore c hc)
  rw [ofText, String.toList_ofList, Text.trimChars_of_trimmed (Text.trimmed_of_forall hblank), ← hsigned]
  cases negative with
  | true => rfl
  | false =>
    change ofChars (d :: more) = readSigned false (d :: more)
    unfold ofChars
    split
    case h_1 h => cases h
    case h_2 h =>
      obtain rfl := (List.cons.inj h).1
      cases hd
    case h_3 h =>
      obtain rfl := (List.cons.inj h).1
      cases hd
    case h_4 b cs h =>
      obtain ⟨rfl, rfl⟩ := List.cons.inj h
      have hb := (List.forall_mem_cons.mp hmore).1
      have hne : ∀ x, isDecimalChar x = false → (b == x) = false := fun x hx =>
        beq_eq_false_iff_ne.mpr fun h => by simp [h, hx] at hb
      simp [hne 'x' rfl, hne 'X' rfl, hne 'o' rfl, hne 'O' rfl, hne 'b' rfl, hne 'B' rfl]
    case h_5 => rfl

/-- Digits in writing after a sign are read as the number in whose interval they lie. -/
theorem Written.ofText {m k c : Nat} {e : Int} {cs : List Char} (hm : m ≠ 0)
    (hu : CanonicalUnits m k) (hread : readsBack m k ⟨c, e⟩ = true)
    (h : Written (Nat.toDigits 10 c) ((Nat.toDigits 10 c).length + e) cs) (negative : Bool) :
    ofText (String.ofList ((if negative then ['-'] else []) ++ cs)) = .finite negative m k hu := by
  obtain ⟨d, more, rfl, hd, hmore⟩ := h.head Nat.toDigits_ne_nil fun _ => isDigit_of_mem
  rw [ofText_ofList hd hmore, h.readDecimal hm hu hread negative, Option.getD_some]

theorem unsignedFloat_finite {negative : Bool} {m k : Nat} (hm : m ≠ 0) (hu : CanonicalUnits m k) :
    Val.unsignedFloat (.finite negative m k hu) = .finite negative m k hu := by
  cases negative <;> simp [Val.unsignedFloat, isNegativeZero, hm]

/-- The shortest text of a number is read as the number, without the sign of a zero. -/
theorem ofText_toText (x : Binary64) : ofText x.toText = Val.unsignedFloat x := by
  cases x with
  | nan => decide +kernel
  | infinite negative => cases negative <;> decide +kernel
  | finite negative m k hu =>
    unfold toText
    dsimp only
    split
    case isTrue hm =>
      rw [unsignedFloat_of_isZero (by rw [isZero, hm]; rfl)]
      decide +kernel
    case isFalse hm =>
      rw [unsignedFloat_finite hm hu]
      have hread := readsBack_decimal m k
      obtain ⟨c, e, -, hwritten, hiff⟩ := exists_written (ne_zero_of_readsBack hm hread)
      exact hwritten.ofText hm hu ((hiff m k).mp hread) negative

theorem readsBack_integer {m k n : Nat} (h : m * 2 ^ k = n * one) :
    readsBack m k ⟨n, 0⟩ = true := by
  rw [readsBack_iff, Decimal.scaled]
  simp only [Nat.pow_eq, Int.toNat_zero, neg_zero, Nat.pow_zero, Nat.mul_one]
  have hself := RoundsTo.self (m := m) (k := k) Nat.one_pos
  rwa [Nat.mul_one, h] at hself

/-- An integer in writing with one place. -/
theorem written_onePlace {n : Nat} (hn : 0 < n) :
    Written (Nat.toDigits 10 (n * 10 ^ 1)) ((Nat.toDigits 10 (n * 10 ^ 1)).length + (-1 : Int))
      (Nat.toDigits 10 n ++ ['.', '0']) := by
  have hten : Nat.toDigits 10 (n * 10 ^ 1) = Nat.toDigits 10 n ++ ['0'] := by
    rw [Nat.pow_one, Nat.mul_comm]
    exact (Nat.toDigits_append_toDigits (b := 10) (d := 0) (by decide) hn (by decide)).symm
  rw [hten]
  exact .point rfl Nat.toDigits_ne_nil (by simp)

theorem toString_append_onePlace {negative : Bool} {n : Nat} (hn : 0 < n) :
    toString (if negative then -(n : Int) else n) ++ ".0" =
      String.ofList ((if negative then ['-'] else []) ++ (Nat.toDigits 10 n ++ ['.', '0'])) := by
  rw [← String.toList_inj, String.toList_ofList, String.toList_append, Text.toList_toString]
  cases negative <;> simp [hn]

/-- The text of a number with one place for integers is read as the number, without the sign of a
zero. -/
theorem ofText_onePlace (x : Binary64) : ofText x.onePlace = Val.unsignedFloat x := by
  unfold onePlace
  split
  case h_2 => exact ofText_toText x
  case h_1 i hi =>
    split
    case isFalse => exact ofText_toText x
    case isTrue =>
      cases x with
      | nan => cases hi
      | infinite => cases hi
      | finite negative m k hu =>
        obtain ⟨n, hunits, rfl⟩ := toInt?_finite_iff.mp hi
        obtain rfl | hn := Nat.eq_zero_or_pos n
        · have hm : m = 0 := by simpa using hunits
          rw [unsignedFloat_of_isZero (by rw [isZero, hm]; rfl)]
          cases negative <;> decide +kernel
        · have hm : m ≠ 0 := by
            rintro rfl
            have := Nat.mul_pos hn one_pos
            omega
          rw [unsignedFloat_finite hm hu, toString_append_onePlace hn]
          refine (written_onePlace hn).ofText hm hu (readsBack_shift.mpr ?_) negative
          rw [show (-1 : Int) + (1 : Nat) = 0 from rfl]
          exact readsBack_integer hunits

/-! ## Integers -/

/-- An integer is rounded to no other number whose gap is at most one. -/
theorem RoundsTo.eq_integer {n m k : Nat} (h : RoundsTo (n * one) 1 m k) (hk : k ≤ 1074) :
    m * 2 ^ k = n * one := by
  obtain ⟨r, hr⟩ := Nat.exists_eq_add_of_le hk
  have hone : n * one = n * 2 ^ r * 2 ^ k := by
    rw [one_eq (e := k + r) hr.symm]
    ring
  have hend := le_lowEnd m k
  have hlow := h.low
  have hhigh := h.high
  have hgap := Nat.two_pow_pos k
  rw [Nat.mul_one, hone] at hlow hhigh
  rw [highEnd] at hhigh
  rw [hone]
  generalize n * 2 ^ r = steps at hlow hhigh ⊢
  -- a step of the gap is twice as wide as the interval on either side
  have hstep : ∀ {a b}, a < b → a * 2 ^ k + 2 ^ k ≤ b * 2 ^ k := fun hlt => by
    rw [← Nat.succ_mul]
    exact Nat.mul_le_mul_right _ hlt
  have hle : m ≤ steps := by
    by_contra hlt
    have := hstep (Nat.lt_of_not_le hlt)
    omega
  have hge : steps ≤ m := by
    by_contra hlt
    have := hstep (Nat.lt_of_not_le hlt)
    omega
  rw [Nat.le_antisymm hle hge]

/-- The decimal of a number that is no integer has decimal places. -/
theorem neg_of_toInt?_eq_none {negative : Bool} {m k c : Nat} {e : Int} {hu : CanonicalUnits m k}
    (h : (finite negative m k hu).toInt? = none) (hread : readsBack m k ⟨c, e⟩ = true) : e < 0 := by
  have hnot : ∀ n, m * 2 ^ k ≠ n * one := fun n hn => by
    have hsome : (finite negative m k hu).toInt? = some _ := toInt?_finite_iff.mpr ⟨n, hn, rfl⟩
    rw [h] at hsome
    cases hsome
  by_contra he
  by_cases hk : k ≤ 1074
  · have hround := readsBack_iff.mp hread
    simp only [Decimal.scaled, Nat.pow_eq] at hround
    rw [show (-e).toNat = 0 by omega, Nat.pow_zero] at hround
    exact hnot _ (hround.eq_integer hk)
  · obtain ⟨r, hr⟩ := Nat.exists_eq_add_of_le (Nat.le_of_not_le hk)
    refine hnot (m * 2 ^ r) ?_
    rw [← one_mul_two_pow hr]
    ring

theorem lt_length_toDigits {c n : Nat} (h : 10 ^ n ≤ c) : n < (Nat.toDigits 10 c).length :=
  (Nat.pow_lt_pow_iff_right (by decide)).mp (h.trans_lt (lt_ten_pow_length c))

/-- A decimal with some of the digits of an integer has its point where the integer ends. -/
theorem le_digits_of_decimalOf? {m k n p : Nat} {x : Decimal} (hunits : m * 2 ^ k = n * one)
    (hn : n ≠ 0) (hp : p < (Nat.toDigits 10 n).length)
    (h : decimalOf? m k (Nat.toDigits 10 n).length (p + 1 : Nat) = some x) :
    ((Nat.toDigits 10 n).length : Int) ≤ x.digits.2 := by
  change _ ≤ ((Nat.toDigits 10 x.c).length : Int) + x.e
  obtain ⟨-, he, hc⟩ := of_decimalOf? h
  obtain ⟨s, hs⟩ : ∃ s : Nat, (Nat.toDigits 10 n).length = p + 1 + s :=
    Nat.exists_eq_add_of_le hp
  have hpower : 10 ^ (p + s) ≤ n := ten_pow_le hn (by omega)
  have hrounded : roundedDown (m * Nat.pow 2 k) x.e = n / 10 ^ s := by
    rw [show x.e = s by omega, roundedDown, if_pos (Int.natCast_nonneg s), Int.toNat_natCast,
      Nat.pow_eq, Nat.pow_eq, hunits, Nat.mul_comm n, Nat.mul_div_mul_left _ _ one_pos]
  have hle : 10 ^ p ≤ x.c := by
    rw [hrounded] at hc
    refine hc.trans' ((Nat.le_div_iff_mul_le (Nat.pow_pos (by decide))).mpr ?_)
    rwa [← Nat.pow_add]
  have := lt_length_toDigits hle
  omega

theorem le_digits_exactDecimal {m k n p : Nat} (hunits : m * 2 ^ k = n * one) (hn : 10 ^ p ≤ n) :
    (p : Int) < (exactDecimal m k).digits.2 := by
  obtain ⟨e, he⟩ : ∃ e, e = 1074 := ⟨_, rfl⟩
  have hle : 10 ^ (p + e) ≤ m * Nat.pow 2 k * Nat.pow 5 e := by
    rw [Nat.pow_eq, Nat.pow_eq, hunits, one_eq he, Nat.mul_assoc, ← Nat.mul_pow, Nat.pow_add]
    exact Nat.mul_le_mul_right _ hn
  have := lt_length_toDigits hle
  rw [exactDecimal, Decimal.digits, ← he]
  dsimp only
  omega

/-- The decimal of a large integer has as many digits before its point as the integer. -/
theorem le_digits_decimal {m k n : Nat} (hunits : m * 2 ^ k = n * one) (hn : 10 ^ 21 ≤ n) :
    22 ≤ (decimal m k).digits.2 := by
  have hposition : pointPosition (m * Nat.pow 2 k) = (Nat.toDigits 10 n).length := by
    rw [pointPosition, Nat.pow_eq, hunits, if_pos (Nat.le_mul_of_pos_left _ (by omega)),
      Nat.mul_div_cancel _ one_pos]
  have hlength := lt_length_toDigits hn
  obtain ⟨p, hp, hfound⟩ | hexact := decimal_cases m k
  · rw [hposition] at hfound
    have := le_digits_of_decimalOf? hunits (by omega) (by omega) hfound
    omega
  · have := le_digits_exactDecimal hunits hn
    rw [hexact]
    omega

theorem Written.exists_mem {ds cs : List Char} {n : Int} (h : Written ds n cs)
    (hwhole : ¬ (ds.length ≤ n ∧ n ≤ 21)) : ∃ c ∈ cs, c.isDigit = false ∧ c ≠ '-' := by
  cases h with
  | whole hn hlimit => exact absurd ⟨by omega, hlimit⟩ hwhole
  | point => exact ⟨'.', by simp, by decide⟩
  | small => exact ⟨'.', by simp, by decide⟩
  | exponentOnly => exact ⟨'e', by simp [exponentText], by decide⟩
  | exponent => exact ⟨'.', by simp, by decide⟩

/-- The shortest text of a number is none of an integer, unless the number is one below `10^21`. -/
theorem exists_mem_toText {negative : Bool} {m k : Nat} {hu : CanonicalUnits m k}
    (h : ∀ i, (finite negative m k hu).toInt? = some i → 10 ^ 21 ≤ i.natAbs) :
    ∃ c ∈ (finite negative m k hu).toText.toList, c.isDigit = false ∧ c ≠ '-' := by
  have hm : m ≠ 0 := by
    rintro rfl
    have hzero := h 0 (toInt?_finite_iff.mpr ⟨0, by simp, by cases negative <;> rfl⟩)
    exact absurd hzero (by decide)
  have hread := readsBack_decimal m k
  obtain ⟨c, e, hn, hwritten, hiff⟩ := exists_written (ne_zero_of_readsBack hm hread)
  have hwhole : ¬ (((Nat.toDigits 10 c).length : Int) ≤ (Nat.toDigits 10 c).length + e ∧
      (Nat.toDigits 10 c).length + e ≤ 21) := by
    rintro ⟨hlength, hlimit⟩
    cases hint : (finite negative m k hu).toInt? with
    | none =>
      have := neg_of_toInt?_eq_none hint ((hiff m k).mp hread)
      omega
    | some i =>
      obtain ⟨n, hunits, hi⟩ := toInt?_finite_iff.mp hint
      have hlarge := h i hint
      have hpoint := le_digits_decimal hunits (by split at hi <;> omega)
      rw [hn] at hpoint
      omega
  obtain ⟨d, hd, hne⟩ := hwritten.exists_mem hwhole
  refine ⟨d, ?_, hne⟩
  rw [toText, if_neg hm, String.toList_ofList]
  exact List.mem_append_right _ hd

/-- In the text of a number is a character that no integer has in its text. -/
theorem exists_mem_onePlace (x : Binary64) :
    ∃ c ∈ x.onePlace.toList, c.isDigit = false ∧ c ≠ '-' := by
  cases x with
  | nan => exact ⟨'N', by decide +kernel, by decide, by decide⟩
  | infinite negative => exact ⟨'I', by cases negative <;> decide +kernel, by decide, by decide⟩
  | finite negative m k hu =>
    unfold onePlace
    split
    case h_1 i hi =>
      split
      case isTrue => exact ⟨'.', by simp, by decide, by decide⟩
      case isFalse hlarge =>
        rw [Nat.pow_eq, Nat.not_lt] at hlarge
        exact exists_mem_toText fun j hj => Option.some.inj (hi.symm.trans hj) ▸ hlarge
    case h_2 hnone => exact exists_mem_toText fun j hj => absurd (hnone.symm.trans hj) nofun

end Binary64

end Wordstack
