/-!
# Binary floating point numbers of 64 bits

Every finite number is a whole number of *units*, the unit being the smallest positive number
`2^-1074`. A finite number is kept as `m · 2^k` units with `m` of at most 53 bits, in the one way
in which `m` has all 53 bits or `k` is zero.

- **Numbers** (`Binary64`): not-a-number, the infinities and the finite numbers, so equality of
  representations is decidable and tells the two zeros apart.
- **Rounding** (`Binary64.ofRatio`): the number nearest to a ratio of units, of two nearest ones
  the one with an even `m`.
- **Comparison** (`Binary64.eq`, `Binary64.lt`): not-a-number is equal to nothing, the zeros are
  equal.
- **Whole numbers** (`Binary64.ofInt`, `Binary64.toInt?`).
- **Difference** (`Binary64.sub`): exact, then rounded.
-/

namespace Wordstack

/-- The one representation of `m · 2^k` units. -/
def CanonicalUnits (m k : Nat) : Prop := m < Nat.pow 2 53 ∧ k ≤ 2045 ∧ (k = 0 ∨ Nat.pow 2 52 ≤ m)

instance (m k : Nat) : Decidable (CanonicalUnits m k) := by unfold CanonicalUnits; infer_instance

/-- A floating point number of 64 bits. -/
inductive Binary64 where
  | nan
  | infinite (negative : Bool)
  | finite (negative : Bool) (m k : Nat) (canonical : CanonicalUnits m k)
deriving DecidableEq

namespace Binary64

/-- The units of the number one. -/
def one : Nat := Nat.pow 2 1074

/-- Zero with a sign. -/
def zero (negative : Bool) : Binary64 := .finite negative 0 0 (by simp [CanonicalUnits])

instance : Inhabited Binary64 := ⟨zero false⟩

/-- The quotient rounded to the nearest whole number, halves to the even one. -/
def roundQuotient (n d : Nat) : Nat :=
  let q := n / d
  let r := n % d
  if 2 * r < d ∨ (2 * r = d ∧ q % 2 = 0) then q else q + 1

/-- The number nearest to `num / den` units, infinite beyond the largest number. -/
def ofRatio (negative : Bool) (num den : Nat) : Binary64 :=
  let k := (num / den).log2 - 52
  let m := roundQuotient num (den * Nat.pow 2 k)
  if h : CanonicalUnits m k then .finite negative m k h
  else if h : CanonicalUnits (m / 2) (k + 1) then .finite negative (m / 2) (k + 1) h
  else .infinite negative

/-- The number nearest to an integer. -/
def ofInt (i : Int) : Binary64 := ofRatio (i < 0) (i.natAbs * one) 1

instance (n : Nat) : OfNat Binary64 n := ⟨ofInt n⟩

/-- The number nearest to `digits · 10^exponent`. Exponents far outside the range of the format
are decided by the number of digits alone. -/
def ofDecimal (negative : Bool) (digits : Nat) (exponent : Int) : Binary64 :=
  let top := (Nat.toDigits 10 digits).length + exponent
  if digits = 0 ∨ top < -330 then zero negative
  else if top > 310 then .infinite negative
  else if 0 ≤ exponent then ofRatio negative (digits * Nat.pow 10 exponent.toNat * one) 1
  else ofRatio negative (digits * one) (Nat.pow 10 (-exponent).toNat)

/-- Whether the number is not-a-number. -/
def isNaN : Binary64 → Bool
  | nan => true
  | _ => false

/-- Whether the number is finite. -/
def isFinite : Binary64 → Bool
  | finite .. => true
  | _ => false

/-- Whether the number is a zero of either sign. -/
def isZero : Binary64 → Bool
  | finite _ m _ _ => m == 0
  | _ => false

/-- The zero below zero. -/
def isNegativeZero : Binary64 → Bool
  | finite true m _ _ => m == 0
  | _ => false

/-- A finite number in units. -/
def units? : Binary64 → Option Int
  | finite negative m k _ =>
    some (if negative then -(m * Nat.pow 2 k : Nat) else (m * Nat.pow 2 k : Nat))
  | _ => none

/-- Numeric equality. -/
def eq (a b : Binary64) : Bool :=
  match a, b with
  | nan, _ | _, nan => false
  | a, b => a == b || (a.isZero && b.isZero)

/-- Numeric order. -/
def lt : Binary64 → Binary64 → Bool
  | nan, _ | _, nan => false
  | infinite n, infinite n' => n && !n'
  | infinite n, finite .. => n
  | finite .., infinite n => !n
  | finite n m k _, finite n' m' k' _ =>
    let a : Int := if n then -(m * Nat.pow 2 k : Nat) else (m * Nat.pow 2 k : Nat)
    let b : Int := if n' then -(m' * Nat.pow 2 k' : Nat) else (m' * Nat.pow 2 k' : Nat)
    decide (a < b)

/-- Numeric order or equality. -/
def le (a b : Binary64) : Bool := a.lt b || a.eq b

/-- The integer that a number stands for. -/
def toInt? (x : Binary64) : Option Int :=
  match x.units? with
  | some u => if u % one = 0 then some (u / one) else none
  | none => none

/-- Whether the number stands for an integer. -/
def isInteger (x : Binary64) : Bool := x.toInt?.isSome

/-- The largest integer `n` such that `n` and all integers below it are told apart. -/
def safeLimit : Nat := Nat.pow 2 53 - 1

/-- The integer that a number stands for, if that is at most `safeLimit` in magnitude. -/
def toSafeInt? (x : Binary64) : Option Int :=
  match x.toInt? with
  | some i => if i.natAbs ≤ safeLimit then some i else none
  | none => none

/-- The integer part toward minus infinity of a finite number. -/
def floor? (x : Binary64) : Option Int := x.units?.map fun u => u.fdiv one

/-- The opposite number. -/
def neg : Binary64 → Binary64
  | nan => nan
  | infinite n => infinite !n
  | finite n m k h => finite (!n) m k h

/-- The difference, rounded. Equal numbers differ by the positive zero, unless a positive zero is
taken from a negative one. -/
def sub : Binary64 → Binary64 → Binary64
  | nan, _ | _, nan => nan
  | infinite n, infinite n' => if n == n' then nan else infinite n
  | infinite n, finite .. => infinite n
  | finite .., infinite n => infinite !n
  | finite n m k _, finite n' m' k' _ =>
    let a : Int := if n then -(m * Nat.pow 2 k : Nat) else (m * Nat.pow 2 k : Nat)
    let b : Int := if n' then -(m' * Nat.pow 2 k' : Nat) else (m' * Nat.pow 2 k' : Nat)
    if a - b = 0 then zero (n && !n') else ofRatio (a < b) (a - b).natAbs 1

end Binary64

end Wordstack
