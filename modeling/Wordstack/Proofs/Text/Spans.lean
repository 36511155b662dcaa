import Mathlib.Data.List.Infix
import Mathlib.Data.List.TakeWhile
import Mathlib.Tactic.Common
import Wordstack.Text.Basic

/-!
# Spans of characters

Characters with a property up to one without it, and in particular the digits of a number.

- **Ends** (`Stops`): a text that does not go on with such a character.
- **Cuts** (`takeWhile_append_of_stops`, `dropWhile_append_of_stops`): a span is cut from a text
  where it stops.
- **Parts** (`containsChars_iff`): the texts that contain a part.
- **Blanks** (`Trimmed`): a text without blanks at its ends is what trimming leaves of a text
  (`trimmed_trimChars`, `trimChars_surrounded`).
- **Natural numbers** (`allDigits_toDigits`, `digitsToNat_toDigits`): the decimal text of a number,
  read as digits, gives the number back. Only the text of zero begins with a zero
  (`eq_zero_of_head?_toDigits`).
- **Digits**: those without a leading zero are the text of a number (`toDigits_digitsToNat`).
- **Integers**: the characters of their texts (`toList_toString`), and reading them
  (`toInt_toString`).
-/

namespace Wordstack

/-! ## Spans -/

/-- The first character of `cs`, if there is one, does not have the property. -/
def Stops (p : Char → Bool) (cs : List Char) : Prop := ∀ c ∈ cs.head?, p c = false

instance (p : Char → Bool) : (cs : List Char) → Decidable (Stops p cs)
  | [] => isTrue (by simp [Stops])
  | c :: _ => decidable_of_iff (p c = false) (by simp [Stops])

theorem takeWhile_append_of_stops {p : Char → Bool} {text more : List Char}
    (h : ∀ c ∈ text, p c = true) (hm : Stops p more) : (text ++ more).takeWhile p = text := by
  rw [List.takeWhile_append_of_pos h]
  cases more with
  | nil => simp
  | cons c more => simp [hm c (by simp)]

theorem dropWhile_append_of_stops {p : Char → Bool} {text more : List Char}
    (h : ∀ c ∈ text, p c = true) (hm : Stops p more) : (text ++ more).dropWhile p = more := by
  rw [List.dropWhile_append_of_pos h]
  cases more with
  | nil => simp
  | cons c more => simp [hm c (by simp)]

theorem dropWhile_of_stops {p : Char → Bool} {cs : List Char} (h : Stops p cs) :
    cs.dropWhile p = cs := by
  simpa using dropWhile_append_of_stops (List.forall_mem_nil (p · = true)) h

/-- Every text is a span and what stops it. -/
theorem exists_span (p : Char → Bool) (cs : List Char) :
    ∃ text more, cs = text ++ more ∧ (∀ c ∈ text, p c = true) ∧ Stops p more := by
  refine ⟨cs.takeWhile p, cs.dropWhile p, List.takeWhile_append_dropWhile.symm,
    fun _ hc => List.mem_takeWhile_imp hc, fun c hc => ?_⟩
  have := List.head?_dropWhile_not p cs
  simp_all

theorem stops_dropWhile (p : Char → Bool) (cs : List Char) : Stops p (cs.dropWhile p) := by
  obtain ⟨text, more, rfl, ht, hm⟩ := exists_span p cs
  rwa [dropWhile_append_of_stops ht hm]

theorem containsChars_iff {part cs : List Char} :
    Text.containsChars part cs = true ↔ part <:+: cs := by
  induction cs with
  | nil => simp [Text.containsChars]
  | cons c cs ih =>
    rw [Text.containsChars, Bool.or_eq_true, List.isPrefixOf_iff_prefix, ih, List.infix_cons_iff]

/-! ## Blanks -/

namespace Text

theorem isBlank_of_visible {c : Char} (hlow : 0x21 ≤ c.toNat) (hhigh : c.toNat ≤ 0x7E) :
    isBlank c = false := by
  simp only [isBlank, Bool.or_eq_false_iff, Bool.and_eq_false_iff, decide_eq_false_iff_not,
    beq_eq_false_iff_ne]
  omega

/-- Neither the first character nor the last one is blank. -/
structure Trimmed (cs : List Char) : Prop where
  first : Stops isBlank cs
  last : Stops isBlank cs.reverse

theorem trimmed_of_forall {cs : List Char} (h : ∀ c ∈ cs, isBlank c = false) : Trimmed cs :=
  ⟨fun c hc => h c (List.mem_of_mem_head? hc),
    fun c hc => h c (List.mem_reverse.mp (List.mem_of_mem_head? hc))⟩

theorem trimEnd_append {cs blanks : List Char} (h : Stops isBlank cs.reverse)
    (hb : ∀ c ∈ blanks, isBlank c = true) : trimEnd (cs ++ blanks) = cs := by
  have hb' : ∀ c ∈ blanks.reverse, isBlank c = true := fun c hc => hb c (List.mem_reverse.mp hc)
  rw [trimEnd, List.reverse_append, dropWhile_append_of_stops hb' h, List.reverse_reverse]

/-- Blanks around a trimmed text are removed, and nothing else. -/
theorem trimChars_surrounded {before cs after : List Char} (hb : ∀ c ∈ before, isBlank c = true)
    (h : Trimmed cs) (ha : ∀ c ∈ after, isBlank c = true) :
    trimChars (before ++ (cs ++ after)) = cs := by
  cases cs with
  | nil =>
    rw [trimChars, List.nil_append,
      List.dropWhile_eq_nil_iff.mpr (List.forall_mem_append.mpr ⟨hb, ha⟩)]
    rfl
  | cons c cs =>
    have hstops : Stops isBlank (c :: cs ++ after) := h.first
    rw [trimChars, dropWhile_append_of_stops hb hstops, trimEnd_append h.last ha]

theorem trimChars_of_trimmed {cs : List Char} (h : Trimmed cs) : trimChars cs = cs := by
  have hnone := List.forall_mem_nil (isBlank · = true)
  simpa using trimChars_surrounded hnone h hnone

/-- What is left begins as the text after its first blanks does. -/
theorem head?_trimChars {cs : List Char} {c : Char} (h : c ∈ (trimChars cs).head?) :
    c ∈ (cs.dropWhile isBlank).head? := by
  have hprefix : trimChars cs <+: cs.dropWhile isBlank := by
    rw [← List.reverse_suffix, trimChars, trimEnd, List.reverse_reverse]
    exact List.dropWhile_suffix _
  obtain ⟨more, hmore⟩ := hprefix
  rw [← hmore, List.head?_append_of_ne_nil _ (List.ne_nil_of_mem (List.mem_of_mem_head? h))]
  exact h

theorem trimmed_trimChars (cs : List Char) : Trimmed (trimChars cs) := by
  refine ⟨fun c hc => ?_, ?_⟩
  · exact stops_dropWhile isBlank cs c (head?_trimChars hc)
  · rw [trimChars, trimEnd, List.reverse_reverse]
    exact stops_dropWhile isBlank _

end Text

/-! ## Decimal digits -/

namespace Text

theorem allDigits_toDigits (n : Nat) : allDigits (Nat.toDigits 10 n) = true := by
  have h : ∀ c ∈ Nat.toDigits 10 n, c.isDigit = true := fun c hc =>
    Nat.isDigit_of_mem_toDigits (by decide) (by decide) hc
  simp [allDigits, List.all_eq_true.mpr h]

theorem digitsToNat_toDigits (n : Nat) : digitsToNat (Nat.toDigits 10 n) = n :=
  Nat.ofDigitChars_toDigits (by decide) (by decide)

/-- A decimal text does not begin with the sign. -/
theorem head?_toDigits_ne (n : Nat) : (Nat.toDigits 10 n).head? ≠ some '-' := by
  intro h
  have digit := Nat.isDigit_of_mem_toDigits (b := 10) (by decide) (by decide)
    (List.mem_of_mem_head? h)
  exact absurd digit (by decide)

/-- Only zero begins with a zero. -/
theorem eq_zero_of_head?_toDigits {n : Nat} (h : (Nat.toDigits 10 n).head? = some '0') : n = 0 := by
  induction n using Nat.strongRecOn with
  | ind n ih =>
    by_cases hn : n < 10
    · rw [Nat.toDigits_of_lt_base hn, List.head?_cons, Option.some.injEq] at h
      exact (by decide : ∀ m < 10, m.digitChar = '0' → m = 0) n hn h
    · obtain ⟨c, cs, hcs⟩ :=
        List.exists_cons_of_ne_nil (Nat.toDigits_ne_nil (n := n / 10) (b := 10))
      rw [Nat.toDigits_of_base_le (by decide) (Nat.le_of_not_lt hn), hcs] at h
      have := ih (n / 10) (by omega) (by rw [hcs]; exact h)
      omega

theorem digit_lt_ten {c : Char} (h : c.isDigit = true) : c.toNat - '0'.toNat < 10 := by
  have hhigh : c.toNat ≤ 57 := (Char.isDigit_iff_toNat.mp h).2
  rw [show '0'.toNat = 48 from rfl]
  omega

/-- A digit is the character of its value. -/
theorem digitChar_toNat_sub {c : Char} (h : c.isDigit = true) :
    (c.toNat - '0'.toNat).digitChar = c := by
  have hlow : 48 ≤ c.toNat := (Char.isDigit_iff_toNat.mp h).1
  apply Char.toNat_inj.mp
  rw [Nat.toNat_digitChar_of_lt_ten (digit_lt_ten h), show '0'.toNat = 48 from rfl]
  omega

/-- Digits after the text of a positive number are the text of the number that all of them stand
for. -/
theorem toDigits_ofDigitChars {n : Nat} (hn : 0 < n) {cs : List Char}
    (h : ∀ c ∈ cs, c.isDigit = true) :
    Nat.toDigits 10 (Nat.ofDigitChars 10 cs n) = Nat.toDigits 10 n ++ cs := by
  induction cs generalizing n with
  | nil => simp [Nat.ofDigitChars]
  | cons c cs ih =>
    obtain ⟨hc, hcs⟩ := List.forall_mem_cons.mp h
    have hd := digit_lt_ten hc
    rw [Nat.ofDigitChars_cons, ih (by omega) hcs, ← Nat.toDigits_append_toDigits (by decide) hn hd,
      Nat.toDigits_of_lt_base hd, digitChar_toNat_sub hc, List.append_assoc]
    rfl

/-- Digits without a leading zero are the text of the number that they stand for. -/
theorem toDigits_digitsToNat {c : Char} {cs : List Char} (hc : c.isDigit = true)
    (h : ∀ c ∈ cs, c.isDigit = true) (hzero : c = '0' → cs = []) :
    Nat.toDigits 10 (digitsToNat (c :: cs)) = c :: cs := by
  have hd := digit_lt_ten hc
  have hvalue : digitsToNat (c :: cs) = Nat.ofDigitChars 10 cs (c.toNat - '0'.toNat) := by
    rw [← Nat.zero_add (c.toNat - '0'.toNat)]
    rfl
  obtain hz | hpos := Nat.eq_zero_or_pos (c.toNat - '0'.toNat)
  · have hc0 : c = '0' := by rw [← digitChar_toNat_sub hc, hz]; rfl
    rw [hvalue, hz, hzero hc0, hc0]
    rfl
  · rw [hvalue, toDigits_ofDigitChars hpos h, Nat.toDigits_of_lt_base hd, digitChar_toNat_sub hc]
    rfl

theorem toList_toString (n : Int) :
    (toString n).toList =
      if n < 0 then '-' :: Nat.toDigits 10 n.natAbs else Nat.toDigits 10 n.natAbs := by
  cases n with
  | ofNat m => simp [toString, Int.repr]
  | negSucc m => simp [toString, Int.repr, Int.negSucc_lt_zero]

/-- Digits without a sign stand for a natural number. -/
theorem toInt_of_head? {cs : List Char} (h : cs.head? ≠ some '-') : toInt cs = digitsToNat cs := by
  unfold toInt
  split
  · simp at h
  · rfl

theorem toInt_toString (n : Int) : toInt (toString n).toList = n := by
  rw [toList_toString]
  split
  · rw [toInt, digitsToNat_toDigits]
    omega
  · rw [toInt_of_head? (head?_toDigits_ne _), digitsToNat_toDigits]
    omega

end Text

end Wordstack
