import Wordstack.Binary64.Read
import Wordstack.Binary64.Show
import Wordstack.Proofs.Binary64.Rounding
import Wordstack.Proofs.Text.Spans

/-!
# The shortest decimal reads back

- **Scaling** (`RoundsTo.scale`): only the ratio matters, not its terms.
- **Search** (`readsBack_decimal`): the decimal that is found for a number lies in the interval that
  is rounded to it.
- **Reading** (`ofDecimal_of_readsBack`): a decimal in the interval is read as the number. No number
  is so large or so small that its decimals are taken for infinite or for zero.
-/

namespace Wordstack.Binary64

/-! ## Scaling -/

/-- Ratios of the same value lie in the same intervals. -/
theorem RoundsTo.scale {num den num' den' m k : Nat} (hd : 0 < den) (hd' : 0 < den')
    (hratio : num' * den = num * den') (h : RoundsTo num den m k) : RoundsTo num' den' m k := by
  have hbelow : ∀ a, a * den ≤ 4 * num ↔ a * den' ≤ 4 * num' := by
    intro a
    rw [← Nat.mul_le_mul_right_iff hd', ← Nat.mul_le_mul_right_iff (n := a * den') hd]
    rw [Nat.mul_assoc 4, Nat.mul_assoc 4, hratio, Nat.mul_right_comm]
  have habove : ∀ a, 4 * num ≤ a * den ↔ 4 * num' ≤ a * den' := by
    intro a
    rw [← Nat.mul_le_mul_right_iff hd', ← Nat.mul_le_mul_right_iff (m := a * den') hd]
    rw [Nat.mul_assoc 4, Nat.mul_assoc 4, hratio, Nat.mul_right_comm]
  refine ⟨(hbelow _).mp h.low, (habove _).mp h.high, fun hodd => ?_⟩
  obtain ⟨hlow, hhigh⟩ := h.inside hodd
  rw [← Nat.not_le, habove] at hlow
  rw [← Nat.not_le, hbelow] at hhigh
  exact ⟨Nat.not_le.mp hlow, Nat.not_le.mp hhigh⟩

/-! ## Search -/

theorem readsBack_iff {m k : Nat} {x : Decimal} :
    readsBack m k x = true ↔ RoundsTo (x.scaled one) (10 ^ (-x.e).toNat) m k := by
  have hlow : ∀ n, x.against n = n * 10 ^ (-x.e).toNat := fun n => by
    rw [Decimal.against, Nat.pow_eq]
  have hunfold : readsBack m k x =
      if m % 2 = 0 then x.against (lowEnd m k) ≤ 4 * x.scaled one &&
        4 * x.scaled one ≤ x.against (highEnd m k)
      else x.against (lowEnd m k) < 4 * x.scaled one &&
        4 * x.scaled one < x.against (highEnd m k) := by
    simp only [readsBack, lowEnd, highEnd, Nat.pow_eq]
    rfl
  rw [hunfold, hlow, hlow]
  split
  case isTrue heven =>
    simp only [Bool.and_eq_true, decide_eq_true_eq]
    exact ⟨fun h => ⟨h.1, h.2, fun hodd => by omega⟩, fun h => ⟨h.low, h.high⟩⟩
  case isFalse hodd =>
    simp only [Bool.and_eq_true, decide_eq_true_eq]
    exact ⟨fun h => ⟨h.1.le, h.2.le, fun _ => h⟩, fun h => h.inside (by omega)⟩

/-- Zeros at the end of a decimal may be counted by its exponent. -/
theorem readsBack_shift {m k c j : Nat} {e : Int} :
    readsBack m k ⟨c * 10 ^ j, e⟩ = true ↔ readsBack m k ⟨c, e + j⟩ = true := by
  rw [readsBack_iff, readsBack_iff, Decimal.scaled, Decimal.scaled]
  simp only [Nat.pow_eq]
  have hpos : ∀ n, 0 < 10 ^ n := fun n => Nat.pow_pos (by decide)
  have hexponents : (e + j).toNat + (-e).toNat = j + e.toNat + (-(e + j)).toNat := by omega
  have hratio : c * 10 ^ (e + j).toNat * one * 10 ^ (-e).toNat =
      c * 10 ^ j * 10 ^ e.toNat * one * 10 ^ (-(e + j)).toNat := by
    calc c * 10 ^ (e + j).toNat * one * 10 ^ (-e).toNat
        = c * one * 10 ^ ((e + j).toNat + (-e).toNat) := by rw [Nat.pow_add]; ring
      _ = c * one * (10 ^ j * 10 ^ e.toNat * 10 ^ (-(e + j)).toNat) := by
        rw [hexponents, Nat.pow_add, Nat.pow_add]
      _ = c * 10 ^ j * 10 ^ e.toNat * one * 10 ^ (-(e + j)).toNat := by ring
  exact ⟨fun h => h.scale (hpos _) (hpos _) hratio,
    fun h => h.scale (hpos _) (hpos _) hratio.symm⟩

/-- All digits of a number. -/
def exactDecimal (m k : Nat) : Decimal := ⟨m * Nat.pow 2 k * Nat.pow 5 1074, -1074⟩

theorem readsBack_exactDecimal (m k : Nat) : readsBack m k (exactDecimal m k) = true := by
  unfold exactDecimal
  obtain ⟨e, he⟩ : ∃ e : Nat, e = 1074 := ⟨_, rfl⟩
  rw [← he, show (-1074 : Int) = -(e : Int) by omega]
  have hscaled : (⟨m * Nat.pow 2 k * Nat.pow 5 e, -(e : Int)⟩ : Decimal).scaled one =
      m * 2 ^ k * 10 ^ e := by
    rw [Decimal.scaled, one_eq he]
    simp only [Nat.pow_eq, Int.toNat_neg_natCast, Nat.pow_zero, Nat.mul_one]
    rw [Nat.mul_assoc, ← Nat.mul_pow]
  rw [readsBack_iff, hscaled, neg_neg, Int.toNat_natCast]
  exact .self (Nat.pow_pos (by decide))

/-- The number in steps of a power of ten, rounded down. -/
def roundedDown (u : Nat) (e : Int) : Nat :=
  if 0 ≤ e then u / (one * Nat.pow 10 e.toNat) else u * Nat.pow 10 (-e).toNat / one

/-- What is found with a number of digits reads back, and is one of the two neighbours of the
number. -/
theorem of_decimalOf? {m k p : Nat} {position : Int} {x : Decimal}
    (h : decimalOf? m k position p = some x) :
    readsBack m k x = true ∧ x.e = position - p ∧ roundedDown (m * Nat.pow 2 k) x.e ≤ x.c := by
  unfold decimalOf? at h
  extract_lets u e c below above at h
  have hc : c = roundedDown u e := rfl
  clear_value c
  split at h
  case h_1 hbelow habove =>
    split at h
    · obtain rfl := Option.some.inj h
      exact ⟨hbelow, rfl, hc.ge⟩
    · obtain rfl := Option.some.inj h
      exact ⟨habove, rfl, hc.ge.trans (Nat.le_succ c)⟩
  case h_2 hbelow _ =>
    obtain rfl := Option.some.inj h
    exact ⟨hbelow, rfl, hc.ge⟩
  case h_3 _ habove =>
    obtain rfl := Option.some.inj h
    exact ⟨habove, rfl, hc.ge.trans (Nat.le_succ c)⟩
  case h_4 => cases h

/-- The search ends with some number of digits, or with all of them. -/
theorem decimal_cases (m k : Nat) :
    (∃ p, p < 17 ∧
      decimalOf? m k (pointPosition (m * Nat.pow 2 k)) (p + 1 : Nat) = some (decimal m k)) ∨
      decimal m k = exactDecimal m k := by
  unfold decimal
  dsimp only
  cases hfind : (List.range 17).findSome?
      fun i => decimalOf? m k (pointPosition (m * Nat.pow 2 k)) (i + 1) with
  | some x =>
    obtain ⟨p, hp, hx⟩ := List.exists_of_findSome?_eq_some hfind
    exact .inl ⟨p, List.mem_range.mp hp, hx⟩
  | none => exact .inr rfl

/-- The decimal that is found for a number reads back as it. -/
theorem readsBack_decimal (m k : Nat) : readsBack m k (decimal m k) = true := by
  obtain ⟨p, -, hp⟩ | hexact := decimal_cases m k
  · exact (of_decimalOf? hp).1
  · rw [hexact]
    exact readsBack_exactDecimal m k

/-! ## Reading -/

/-- The two powers that bound the numbers of the format. -/
theorem two_pow_le_ten_pow {a b : Nat} (h : a = 1024 ∧ b = 309 ∨ a = 1075 ∧ b = 324) :
    2 ^ a ≤ 10 ^ b := by
  obtain ⟨rfl, rfl⟩ | ⟨rfl, rfl⟩ := h <;> decide +kernel

theorem RoundsTo.le_num {num den m k : Nat} (h : RoundsTo num den m k) (hm : m ≠ 0) :
    den ≤ 2 * num := by
  have hend : 2 ≤ lowEnd m k := by
    have hgap := Nat.two_pow_pos k
    have hunits : 2 ^ k ≤ m * 2 ^ k := Nat.le_mul_of_pos_left _ (Nat.pos_of_ne_zero hm)
    have hle := le_lowEnd m k
    omega
  have hlow := (Nat.mul_le_mul_right den hend).trans h.low
  omega

theorem lt_ten_pow_length (c : Nat) : c < 10 ^ (Nat.toDigits 10 c).length :=
  (Nat.length_toDigits_le_iff (by decide) Nat.length_toDigits_pos).mp (Nat.le_refl _)

theorem ten_pow_le {c n : Nat} (hc : c ≠ 0) (h : n < (Nat.toDigits 10 c).length) : 10 ^ n ≤ c := by
  obtain rfl | hn := Nat.eq_zero_or_pos n
  · exact Nat.pos_of_ne_zero hc
  · by_contra hlt
    exact absurd ((Nat.length_toDigits_le_iff (by decide) hn).mpr (Nat.not_le.mp hlt)) (by omega)

/-- No number of the format is so small that its decimals are taken for zero. -/
theorem RoundsTo.le_top {c m k : Nat} {e : Int} (hm : m ≠ 0)
    (h : RoundsTo (c * 10 ^ e.toNat * one) (10 ^ (-e).toNat) m k) :
    -330 ≤ (Nat.toDigits 10 c).length + e := by
  by_contra htop
  have hlength := lt_ten_pow_length c
  generalize (Nat.toDigits 10 c).length = n at htop hlength
  obtain ⟨p, hp⟩ : ∃ p, p = 1075 := ⟨_, rfl⟩
  obtain ⟨q, hq⟩ : ∃ q, q = 324 := ⟨_, rfl⟩
  have hlt : 10 ^ (-e).toNat < 10 ^ (n + q) := calc
    10 ^ (-e).toNat ≤ 2 * (c * 10 ^ e.toNat * one) := h.le_num hm
    _ = c * (one * 2 ^ 1) := by
      rw [show e.toNat = 0 by omega]
      ring
    _ = c * 2 ^ p := by rw [one_mul_two_pow (by omega)]
    _ < 10 ^ n * 10 ^ q := Nat.mul_lt_mul_of_lt_of_le hlength
      (two_pow_le_ten_pow (.inr ⟨hp, hq⟩)) (Nat.pow_pos (by decide))
    _ = 10 ^ (n + q) := (Nat.pow_add ..).symm
  have := (Nat.pow_lt_pow_iff_right (by decide)).mp hlt
  omega

/-- No number of the format is so large that its decimals are taken for infinite. -/
theorem RoundsTo.top_le {c m k : Nat} {e : Int} (hc : c ≠ 0) (hu : CanonicalUnits m k)
    (h : RoundsTo (c * 10 ^ e.toNat * one) (10 ^ (-e).toNat) m k) :
    (Nat.toDigits 10 c).length + e ≤ 310 := by
  obtain ⟨n, hn⟩ : ∃ n, (Nat.toDigits 10 c).length = n + 1 :=
    Nat.exists_eq_add_of_le' Nat.length_toDigits_pos
  have hlength : 10 ^ n ≤ c := ten_pow_le hc (by omega)
  have hden : 0 < 10 ^ (-e).toNat := Nat.pow_pos (by decide)
  have hnum := (Nat.div_lt_iff_lt_mul hden).mp (h.div_lt hu.1 hden)
  obtain ⟨p, hp⟩ : ∃ p, p = 1024 := ⟨_, rfl⟩
  obtain ⟨q, hq⟩ : ∃ q, q = 309 := ⟨_, rfl⟩
  have hrange : 2 ^ (53 + k) ≤ 2 ^ (1074 + p) :=
    Nat.pow_le_pow_right (by decide) (by have := hu.2.1; omega)
  have hlt : 10 ^ (n + e.toNat) * one < 10 ^ (q + (-e).toNat) * one := calc
    10 ^ (n + e.toNat) * one = 10 ^ n * 10 ^ e.toNat * one := by rw [Nat.pow_add]
    _ ≤ c * 10 ^ e.toNat * one := Nat.mul_le_mul_right _ (Nat.mul_le_mul_right _ hlength)
    _ < 2 ^ (53 + k) * 10 ^ (-e).toNat := hnum
    _ ≤ one * 2 ^ p * 10 ^ (-e).toNat := by
      rw [one_mul_two_pow rfl]
      exact Nat.mul_le_mul_right _ hrange
    _ ≤ one * 10 ^ q * 10 ^ (-e).toNat := Nat.mul_le_mul_right _
      (Nat.mul_le_mul_left _ (two_pow_le_ten_pow (.inl ⟨hp, hq⟩)))
    _ = 10 ^ (q + (-e).toNat) * one := by rw [Nat.pow_add]; ring
  have := (Nat.pow_lt_pow_iff_right (by decide)).mp (Nat.lt_of_mul_lt_mul_right hlt)
  omega

theorem ne_zero_of_readsBack {m k : Nat} {x : Decimal} (hm : m ≠ 0)
    (h : readsBack m k x = true) : x.c ≠ 0 := by
  intro hc
  have hle := (readsBack_iff.mp h).le_num hm
  have := Nat.pow_pos (n := (-x.e).toNat) (show 0 < 10 by decide)
  rw [Decimal.scaled, hc] at hle
  omega

/-- A decimal in the interval of a number is read as the number. -/
theorem ofDecimal_of_readsBack {m k c : Nat} {e : Int} (hm : m ≠ 0) (hu : CanonicalUnits m k)
    (h : readsBack m k ⟨c, e⟩ = true) (negative : Bool) :
    ofDecimal negative c e = .finite negative m k hu := by
  have hround := readsBack_iff.mp h
  simp only [Decimal.scaled, Nat.pow_eq] at hround
  have hc : c ≠ 0 := ne_zero_of_readsBack hm h
  have hlow := hround.le_top hm
  have hhigh := hround.top_le hc hu
  unfold ofDecimal
  dsimp only
  rw [if_neg (by omega), if_neg (by omega)]
  simp only [Nat.pow_eq]
  split
  case isTrue he =>
    rw [show (-e).toNat = 0 by omega, Nat.pow_zero] at hround
    exact ofRatio_of_roundsTo Nat.one_pos hu hround negative
  case isFalse he =>
    rw [show e.toNat = 0 by omega, Nat.pow_zero, Nat.mul_one] at hround
    exact ofRatio_of_roundsTo (Nat.pow_pos (by decide)) hu hround negative

end Wordstack.Binary64
