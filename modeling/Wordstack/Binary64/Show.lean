import Wordstack.Binary64.Basic
import Wordstack.Text.Basic

/-!
# Numbers as text

- **Digits** (`Binary64.decimal`): the decimal with the fewest digits that reads back as the
  number, of several the nearest. The search stops at seventeen digits; were none of them enough,
  all digits of the number would be written.
- **Text** (`Binary64.toText`): positional from `1e-6` up to below `1e21`, otherwise with an
  exponent that carries its sign. A zero has no sign.
- **One place** (`Binary64.onePlace`): an integral number below `1e21` with all its digits and one
  decimal place.
-/

namespace Wordstack

namespace Binary64

/-- `c · 10^e`. -/
structure Decimal where
  c : Nat
  e : Int

/-- `c · 10^e` compared with `n / d`: both sides over a common denominator. -/
def Decimal.scaled (x : Decimal) (d : Nat) : Nat := x.c * Nat.pow 10 x.e.toNat * d

/-- The other side of `Decimal.scaled`. -/
def Decimal.against (x : Decimal) (n : Nat) : Nat := n * Nat.pow 10 (-x.e).toNat

/-- Whether a decimal reads back as `m · 2^k` units: it is no farther than half a gap, and nearer
than that when `m` is odd. Below a power of two the gap is half as wide. -/
def readsBack (m k : Nat) (x : Decimal) : Bool :=
  let gap := Nat.pow 2 k
  let low := 4 * (m * gap) - (if m = Nat.pow 2 52 ∧ k ≠ 0 then gap else 2 * gap)
  let high := 4 * (m * gap) + 2 * gap
  let v := 4 * x.scaled one
  if m % 2 = 0 then x.against low ≤ v && v ≤ x.against high
  else x.against low < v && v < x.against high

/-- The number of digits before the decimal point of `u` units; zero or less counts the zeros that
follow it. -/
def pointPosition (u : Nat) : Int :=
  if one ≤ u then (Nat.toDigits 10 (u / one)).length
  else 1 - (((List.range 330).find? fun j => one ≤ u * Nat.pow 10 j).getD 330 : Nat)

/-- The nearest decimal of `p` digits that reads back, of two nearest ones the even one. -/
def decimalOf? (m k : Nat) (position : Int) (p : Nat) : Option Decimal :=
  let u := m * Nat.pow 2 k
  let e := position - p
  let c := if 0 ≤ e then u / (one * Nat.pow 10 e.toNat) else u * Nat.pow 10 (-e).toNat / one
  let below : Decimal := ⟨c, e⟩
  let above : Decimal := ⟨c + 1, e⟩
  match readsBack m k below, readsBack m k above with
  | true, true =>
    let twice := 2 * below.against u
    let sum := below.scaled one + above.scaled one
    if twice < sum ∨ (twice = sum ∧ c % 2 = 0) then some below else some above
  | true, false => some below
  | false, true => some above
  | false, false => none

/-- The shortest decimal that reads back as `m · 2^k` units. -/
def decimal (m k : Nat) : Decimal :=
  let position := pointPosition (m * Nat.pow 2 k)
  ((List.range 17).findSome? fun i => decimalOf? m k position (i + 1)).getD
    ⟨m * Nat.pow 2 k * Nat.pow 5 1074, -1074⟩

/-- The digits of a decimal without the zeros at their end, and where the decimal point stands. -/
def Decimal.digits (x : Decimal) : List Char × Int :=
  let ds := Nat.toDigits 10 x.c
  ((ds.reverse.dropWhile (· == '0')).reverse, ds.length + x.e)

/-- The digits of `c · 10^e` positionally or with an exponent. -/
def Decimal.layout (x : Decimal) : List Char :=
  let (ds, n) := x.digits
  let k : Int := ds.length
  if k ≤ n ∧ n ≤ 21 then ds ++ List.replicate (n - k).toNat '0'
  else if 0 < n ∧ n ≤ 21 then ds.take n.toNat ++ '.' :: ds.drop n.toNat
  else if -6 < n ∧ n ≤ 0 then '0' :: '.' :: (List.replicate (-n).toNat '0' ++ ds)
  else
    let e := n - 1
    let exponent := 'e' :: (if e < 0 then '-' else '+') :: Nat.toDigits 10 e.natAbs
    match ds with
    | [d] => d :: exponent
    | d :: rest => d :: '.' :: (rest ++ exponent)
    | [] => exponent

/-- The shortest text that reads back as the number. -/
def toText : Binary64 → String
  | nan => "NaN"
  | infinite negative => if negative then "-Infinity" else "Infinity"
  | finite negative m k _ =>
    if m = 0 then "0"
    else String.ofList ((if negative then ['-'] else []) ++ (decimal m k).layout)

/-- An integral number below `1e21` in full with one place, any other number by its shortest
text. -/
def onePlace (x : Binary64) : String :=
  match x.toInt? with
  | some i =>
    if i.natAbs < Nat.pow 10 21 then toString i ++ ".0" else x.toText
  | none => x.toText

end Binary64

end Wordstack
