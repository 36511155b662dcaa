import Mathlib.Tactic.Common
import Mathlib.Tactic.Linarith
import Mathlib.Tactic.Ring
import Wordstack.Binary64.Basic

/-!
# Rounding to the nearest number

- **Intervals** (`Binary64.RoundsTo`): the ratios that are as near to a number as to any other one,
  with the ends of the interval if its `m` is even. Below a power of two the gap is half as wide.
- **Rounding** (`Binary64.ofRatio_of_roundsTo`): a ratio in the interval of a number is rounded to
  it, and a number is rounded to itself (`Binary64.ofRatio_self`).
- **Integers** (`Binary64.toInt?_ofInt`, `Binary64.toSafeInt?_ofInt`): integers up to the safe limit
  are numbers, and larger ones are not rounded to a safe one.
-/

namespace Wordstack.Binary64

/-! ## Intervals -/

/-- Four times the units halfway between a number and the next smaller one. -/
def lowEnd (m k : Nat) : Nat := 4 * (m * 2 ^ k) - if m = 2 ^ 52 ∧ k ≠ 0 then 2 ^ k else 2 * 2 ^ k

/-- Four times the units halfway between a number and the next larger one. -/
def highEnd (m k : Nat) : Nat := 4 * (m * 2 ^ k) + 2 * 2 ^ k

/-- The ratio `num / den` of units lies in the interval around `m · 2^k` units. -/
structure RoundsTo (num den m k : Nat) : Prop where
  low : lowEnd m k * den ≤ 4 * num
  high : 4 * num ≤ highEnd m k * den
  inside : m % 2 = 1 → lowEnd m k * den < 4 * num ∧ 4 * num < highEnd m k * den

theorem le_lowEnd (m k : Nat) : 4 * (m * 2 ^ k) ≤ lowEnd m k + 2 * 2 ^ k := by
  unfold lowEnd
  split <;> omega

theorem lowEnd_le (m k : Nat) : lowEnd m k ≤ 4 * (m * 2 ^ k) := Nat.sub_le _ _

/-- Below a power of two the gap is half as wide. -/
theorem lowEnd_binade (k : Nat) : lowEnd (2 ^ 52) (k + 1) = (2 ^ 55 - 2) * 2 ^ k := by
  have hdouble : 2 ^ (k + 1) = 2 ^ k * 2 := Nat.pow_succ ..
  rw [lowEnd, if_pos ⟨rfl, k.succ_ne_zero⟩]
  omega

theorem RoundsTo.self {m k d : Nat} (hd : 0 < d) : RoundsTo (m * 2 ^ k * d) d m k := by
  have hp := Nat.two_pow_pos k
  have hlow := Nat.mul_le_mul_right d (lowEnd_le m k)
  have hhigh : highEnd m k * d = 4 * (m * 2 ^ k * d) + 2 * (2 ^ k * d) := by
    rw [highEnd]
    ring
  have hgap : 0 < 2 ^ k * d := Nat.mul_pos hp hd
  refine ⟨by linarith, by omega, fun hodd => ⟨?_, by omega⟩⟩
  have hm : 0 < m * 2 ^ k := Nat.mul_pos (by omega) hp
  have hlt : lowEnd m k < 4 * (m * 2 ^ k) := by
    unfold lowEnd
    split <;> omega
  have := Nat.mul_lt_mul_of_pos_right hlt hd
  linarith

/-! ## Rounding -/

/-- The quotient nearest to a ratio, of two nearest ones the even one. -/
theorem roundQuotient_eq {n d m : Nat} (hd : 0 < d) (hlow : 2 * (m * d) ≤ 2 * n + d)
    (hhigh : 2 * n ≤ 2 * (m * d) + d)
    (hodd : m % 2 = 1 → 2 * (m * d) < 2 * n + d ∧ 2 * n < 2 * (m * d) + d) :
    roundQuotient n d = m := by
  have hn := Nat.div_add_mod n d
  have hr := Nat.mod_lt n hd
  unfold roundQuotient
  dsimp only
  generalize n / d = q at hn ⊢
  generalize n % d = r at hn hr ⊢
  rw [Nat.mul_comm] at hn
  -- the nearest quotient is the one below or the one above
  have hq : q ≤ m := by
    by_contra hlt
    have := Nat.mul_le_mul_right d (Nat.lt_of_not_le hlt)
    rw [Nat.succ_mul m d] at this
    omega
  have hm : m ≤ q + 1 := by
    by_contra hlt
    have := Nat.mul_le_mul_right d (Nat.lt_of_not_le hlt)
    rw [Nat.succ_mul (q + 1) d, Nat.succ_mul q d] at this
    omega
  obtain rfl | rfl : m = q ∨ m = q + 1 := by omega
  · rw [if_pos (by omega)]
  · rw [Nat.succ_mul q d] at hlow hhigh hodd
    rw [if_neg (by omega)]

/-- A ratio in the interval of a number, in steps of its gap. -/
theorem RoundsTo.roundQuotient_eq {num den m k : Nat} (hd : 0 < den) (h : RoundsTo num den m k) :
    roundQuotient num (den * 2 ^ k) = m := by
  have hlow := Nat.mul_le_mul_right den (le_lowEnd m k)
  have hgap : (lowEnd m k + 2 * 2 ^ k) * den = lowEnd m k * den + 2 * (den * 2 ^ k) := by ring
  have hnumber : 4 * (m * 2 ^ k) * den = 4 * (m * (den * 2 ^ k)) := by ring
  have hhigh : highEnd m k * den = 4 * (m * (den * 2 ^ k)) + 2 * (den * 2 ^ k) := by
    rw [highEnd]
    ring
  have h1 := h.low
  have h2 := h.high
  have h3 := h.inside
  exact Binary64.roundQuotient_eq (Nat.mul_pos hd (Nat.two_pow_pos k)) (by omega) (by omega)
    (by omega)

/-- What rounds to a number lies below the next power of two. -/
theorem RoundsTo.div_lt {num den m k : Nat} (h : RoundsTo num den m k) (hm : m < 2 ^ 53)
    (hd : 0 < den) : num / den < 2 ^ (53 + k) := by
  rw [Nat.div_lt_iff_lt_mul hd, Nat.pow_add]
  have hgap : 0 < 2 ^ k * den := Nat.mul_pos (Nat.two_pow_pos k) hd
  have hle := Nat.mul_le_mul_right (2 ^ k * den) (Nat.le_sub_one_of_lt hm)
  have h2 := h.high
  have hhigh : highEnd m k * den = 4 * (m * (2 ^ k * den)) + 2 * (2 ^ k * den) := by
    rw [highEnd]
    ring
  have hpower : 2 ^ 53 * 2 ^ k * den = 2 ^ 53 * (2 ^ k * den) := Nat.mul_assoc ..
  rw [hpower]
  omega

/-- What rounds to a number above a power of two lies above it as well. -/
theorem RoundsTo.le_div {num den m k : Nat} (h : RoundsTo num den m k) (hm : 2 ^ 52 < m)
    (hd : 0 < den) : 2 ^ (52 + k) ≤ num / den := by
  rw [Nat.le_div_iff_mul_le hd, Nat.pow_add]
  have hle := Nat.mul_le_mul_right (2 ^ k * den) (Nat.succ_le_of_lt hm)
  have hlow := Nat.mul_le_mul_right den (le_lowEnd m k)
  have h1 := h.low
  have hpower : 2 ^ 52 * 2 ^ k * den = 2 ^ 52 * (2 ^ k * den) := Nat.mul_assoc ..
  have hnumber : 4 * (m * 2 ^ k) * den = 4 * (m * (2 ^ k * den)) := by ring
  have hgap : (lowEnd m k + 2 * 2 ^ k) * den = lowEnd m k * den + 2 * (2 ^ k * den) := by ring
  rw [hpower]
  omega

/-- Just below a power of two the steps of rounding are half as wide as the gap of the power, and
a ratio in its interval is rounded up to it. -/
theorem RoundsTo.roundQuotient_binade {num den k : Nat} (hd : 0 < den)
    (h : RoundsTo num den (2 ^ 52) (k + 1)) (hlt : num / den < 2 ^ (53 + k)) :
    roundQuotient num (den * 2 ^ k) = 2 ^ 53 := by
  have hlow : lowEnd (2 ^ 52) (k + 1) * den = (2 ^ 55 - 2) * (den * 2 ^ k) := by
    rw [lowEnd_binade]
    ring
  rw [Nat.div_lt_iff_lt_mul hd, Nat.pow_add, Nat.mul_assoc, Nat.mul_comm (2 ^ k)] at hlt
  have h1 := h.low
  exact Binary64.roundQuotient_eq (Nat.mul_pos hd (Nat.two_pow_pos k)) (by omega) (by omega)
    (by omega)

/-- The steps of rounding, from the bits of the whole part of a ratio. -/
theorem log2_sub_eq {q k : Nat} (hlow : k = 0 ∨ 2 ^ (52 + k) ≤ q) (hhigh : q < 2 ^ (53 + k)) :
    q.log2 - 52 = k := by
  by_cases hq : q = 0
  · subst hq
    have hpos := Nat.two_pow_pos (52 + k)
    rw [Nat.log2_zero]
    omega
  · have hlt := (Nat.log2_lt hq).mpr hhigh
    obtain rfl | hle := hlow
    · omega
    · have := (Nat.le_log2 hq).mpr hle
      omega

/-- A ratio in the interval of a number is rounded to it. -/
theorem ofRatio_of_roundsTo {num den m k : Nat} (hd : 0 < den) (hc : CanonicalUnits m k)
    (h : RoundsTo num den m k) (negative : Bool) :
    ofRatio negative num den = .finite negative m k hc := by
  have hhigh := h.div_lt hc.1 hd
  by_cases hcase : k = 0 ∨ 2 ^ (52 + k) ≤ num / den
  · -- the steps of rounding are the gap of the number
    simp only [ofRatio, Nat.pow_eq, log2_sub_eq hcase hhigh, h.roundQuotient_eq hd, hc, dif_pos]
  · rw [not_or, Nat.not_le] at hcase
    obtain ⟨hk, hlt⟩ := hcase
    have hm52 : 2 ^ 52 ≤ m := hc.2.2.resolve_left hk
    obtain rfl : m = 2 ^ 52 := by
      by_contra hne
      exact absurd (h.le_div (by omega) hd) (by omega)
    obtain ⟨k, rfl⟩ := Nat.exists_eq_add_of_le' (Nat.one_le_iff_ne_zero.mpr hk)
    have hlt' : num / den < 2 ^ (53 + k) := by rwa [show 53 + k = 52 + (k + 1) by omega]
    have hge : k = 0 ∨ 2 ^ (52 + k) ≤ num / den := by
      right
      have h1 := h.low
      rw [lowEnd_binade, Nat.mul_assoc] at h1
      rw [Nat.le_div_iff_mul_le hd, Nat.pow_add, Nat.mul_assoc]
      omega
    have hodd : ¬ CanonicalUnits (2 ^ 53) k := fun hc => Nat.lt_irrefl _ hc.1
    have hhalf : 2 ^ 53 / 2 = 2 ^ 52 := by decide
    simp only [ofRatio, Nat.pow_eq, log2_sub_eq hge hlt', h.roundQuotient_binade hd hlt', hodd,
      dif_neg, not_false_eq_true, hhalf, hc, dif_pos]

/-- A number is rounded to itself. -/
theorem ofRatio_self {m k d : Nat} (hd : 0 < d) (hc : CanonicalUnits m k) (negative : Bool) :
    ofRatio negative (m * 2 ^ k * d) d = .finite negative m k hc :=
  ofRatio_of_roundsTo hd hc (.self hd) negative

/-! ## Integers -/

-- The exponent is a variable here, lest the power be computed.
theorem one_eq {e : Nat} (h : e = 1074) : one = 2 ^ e := by
  unfold one
  rw [← h, Nat.pow_eq]

theorem one_pos : 0 < one := by
  obtain ⟨e, he⟩ : ∃ e, e = 1074 := ⟨_, rfl⟩
  rw [one_eq he]
  exact Nat.two_pow_pos e

theorem one_mul_two_pow {r e : Nat} (h : e = 1074 + r) : one * 2 ^ r = 2 ^ e := by
  obtain ⟨e', he⟩ : ∃ e', e' = 1074 := ⟨_, rfl⟩
  rw [one_eq he, ← Nat.pow_add, he, h]

/-- A finite number is an integer if and only if its units are a multiple of those of one. -/
theorem toInt?_finite_iff {negative : Bool} {m k : Nat} {hc : CanonicalUnits m k} {i : Int} :
    (finite negative m k hc).toInt? = some i ↔
      ∃ n : Nat, m * 2 ^ k = n * one ∧ i = if negative then -(n : Int) else n := by
  have hone : (one : Int) ≠ 0 := Int.natCast_ne_zero.mpr (Nat.pos_iff_ne_zero.mp one_pos)
  simp only [toInt?, units?, Nat.pow_eq, Option.ite_none_right_eq_some, Option.some.injEq]
  generalize m * 2 ^ k = u
  generalize one = d at *
  constructor
  · rintro ⟨hdvd, rfl⟩
    have hu : d ∣ u := by
      rw [← Int.natCast_dvd_natCast]
      cases negative
      · exact Int.dvd_of_emod_eq_zero hdvd
      · exact Int.dvd_neg.mp (Int.dvd_of_emod_eq_zero hdvd)
    obtain ⟨n, rfl⟩ := hu
    refine ⟨n, Nat.mul_comm .., ?_⟩
    rw [Int.natCast_mul]
    cases negative
    · exact Int.mul_ediv_cancel_left _ hone
    · rw [if_pos rfl, if_pos rfl, ← Int.mul_neg]
      exact Int.mul_ediv_cancel_left _ hone
  · rintro ⟨n, rfl, rfl⟩
    rw [Int.natCast_mul]
    cases negative
    · exact ⟨Int.mul_emod_left .., Int.mul_ediv_cancel _ hone⟩
    · rw [if_pos rfl, if_pos rfl, ← Int.neg_mul]
      exact ⟨Int.mul_emod_left .., Int.mul_ediv_cancel _ hone⟩

theorem safeLimit_eq : safeLimit = 2 ^ 53 - 1 := by
  rw [safeLimit, Nat.pow_eq]

/-- The number with all 53 bits that stands for an integer up to the safe limit. -/
theorem exists_canonical_units {n : Nat} (hn : n ≤ safeLimit) :
    ∃ m k, CanonicalUnits m k ∧ m * 2 ^ k = n * one := by
  obtain rfl | hpos := Nat.eq_zero_or_pos n
  · exact ⟨0, 0, by decide, by simp⟩
  · have hbits : n.log2 < 53 := by
      rw [safeLimit_eq] at hn
      exact (Nat.log2_lt hpos.ne').mpr (by omega)
    obtain ⟨hle, hlt⟩ := (Nat.log2_eq_iff hpos.ne').mp rfl
    generalize n.log2 = b at hbits hle hlt
    obtain ⟨s, hs⟩ : ∃ s, b + s = 52 := ⟨52 - b, by omega⟩
    refine ⟨n * 2 ^ s, 1074 - s, ⟨?_, by omega, .inr ?_⟩, ?_⟩
    · have := Nat.mul_lt_mul_of_pos_right hlt (Nat.two_pow_pos s)
      rwa [← Nat.pow_add, show b + 1 + s = 53 by omega] at this
    · have := Nat.mul_le_mul_right (2 ^ s) hle
      rwa [← Nat.pow_add, hs] at this
    · rw [Nat.mul_assoc, ← Nat.pow_add, ← one_eq]
      omega

/-- An integer up to the safe limit is a number. -/
theorem toInt?_ofInt {i : Int} (h : i.natAbs ≤ safeLimit) : (ofInt i).toInt? = some i := by
  obtain ⟨m, k, hc, hunits⟩ := exists_canonical_units h
  have hself := ofRatio_self Nat.one_pos hc (decide (i < 0))
  rw [Nat.mul_one, hunits] at hself
  rw [ofInt, hself, toInt?_finite_iff]
  exact ⟨i.natAbs, hunits, by simp only [decide_eq_true_eq]; omega⟩

/-- A number whose gap is two or more is beyond the safe limit. -/
theorem toSafeInt?_of_gap {negative : Bool} {m k : Nat} (hc : CanonicalUnits m k)
    (hk : 1075 ≤ k) : (finite negative m k hc).toSafeInt? = none := by
  unfold toSafeInt?
  split
  case h_2 => rfl
  case h_1 i hi =>
    obtain ⟨n, hunits, rfl⟩ := toInt?_finite_iff.mp hi
    have hm : 2 ^ 52 ≤ m := hc.2.2.resolve_left (by omega)
    have hgap : one * 2 ≤ 2 ^ k := by
      obtain ⟨r, hr⟩ := Nat.exists_eq_add_of_le hk
      have htwo : 2 ^ 1 ≤ 2 ^ (r + 1) := Nat.pow_le_pow_right Nat.two_pos (Nat.le_add_left 1 r)
      rw [← one_mul_two_pow (r := r + 1) (by omega)]
      exact Nat.mul_le_mul_left one htwo
    have hle : 2 ^ 53 * one ≤ n * one := by
      have := Nat.mul_le_mul hm hgap
      omega
    have hlarge := Nat.le_of_mul_le_mul_right hle one_pos
    rw [if_neg]
    cases negative <;> rw [safeLimit_eq] <;> simp <;> omega

/-- A ratio that is too large is not rounded to a safe integer. -/
theorem toSafeInt?_ofRatio {num den : Nat} (h : 1127 ≤ (num / den).log2) (negative : Bool) :
    (ofRatio negative num den).toSafeInt? = none := by
  unfold ofRatio
  dsimp only
  split
  case isTrue hc => exact toSafeInt?_of_gap hc (by omega)
  case isFalse =>
    split
    case isTrue hc => exact toSafeInt?_of_gap hc (by omega)
    case isFalse => rfl

/-- Integers are told apart up to the safe limit, and no larger one is rounded to one of these. -/
theorem toSafeInt?_ofInt (i : Int) :
    (ofInt i).toSafeInt? = if i.natAbs ≤ safeLimit then some i else none := by
  split
  case isTrue h =>
    rw [toSafeInt?, toInt?_ofInt h]
    exact if_pos h
  case isFalse h =>
    have hlarge : 2 ^ 53 ≤ i.natAbs := by
      rw [safeLimit_eq] at h
      omega
    unfold ofInt
    refine toSafeInt?_ofRatio ?_ _
    generalize i.natAbs = n at hlarge ⊢
    obtain ⟨e, he⟩ : ∃ e, e = 1074 + 53 := ⟨_, rfl⟩
    have hbits : e ≤ (n * one).log2 := by
      rw [Nat.le_log2 (Nat.mul_ne_zero (by omega) one_pos.ne'), ← one_mul_two_pow he,
        Nat.mul_comm one]
      exact Nat.mul_le_mul_right one hlarge
    rw [Nat.div_one]
    omega

end Wordstack.Binary64
