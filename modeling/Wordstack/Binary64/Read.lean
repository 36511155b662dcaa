import Wordstack.Binary64.Basic
import Wordstack.Text.Basic

/-!
# Numbers from text

- **Decimals** (`Binary64.readDecimal`): digits with an optional point, at least one digit, and an
  optional exponent; no sign.
- **Numeric texts** (`Binary64.ofText`): blanks around are ignored; the empty text is zero; a sign
  may stand before a decimal or `Infinity`; `0x`, `0o` and `0b` open unsigned integers. Any other
  text is not-a-number.
- **Leading integers** (`Binary64.leadingInt`): the integer a text starts with.
-/

namespace Wordstack

namespace Binary64

/-- The exponent part of a decimal: nothing, or `e` with an optional sign and digits. -/
def readExponent : List Char → Option Int
  | [] => some 0
  | e :: cs =>
    if e == 'e' || e == 'E' then
      match cs with
      | '-' :: ds => if Text.allDigits ds then some (-(Text.digitsToNat ds : Int)) else none
      | '+' :: ds => if Text.allDigits ds then some (Text.digitsToNat ds : Int) else none
      | ds => if Text.allDigits ds then some (Text.digitsToNat ds : Int) else none
    else none

/-- An unsigned decimal. -/
def readDecimal (negative : Bool) (cs : List Char) : Option Binary64 :=
  let whole := cs.takeWhile Char.isDigit
  let rest := cs.dropWhile Char.isDigit
  let (places, rest) := match rest with
    | '.' :: r => (r.takeWhile Char.isDigit, r.dropWhile Char.isDigit)
    | r => ([], r)
  if whole.isEmpty && places.isEmpty then none
  else (readExponent rest).map fun e =>
    ofDecimal negative (Text.digitsToNat (whole ++ places)) (e - places.length)

/-- The value of a digit in bases up to sixteen. -/
def digitValue (c : Char) : Nat :=
  if c.isDigit then c.toNat - '0'.toNat
  else if 'a' ≤ c && c ≤ 'z' then c.toNat - 'a'.toNat + 10
  else if 'A' ≤ c && c ≤ 'Z' then c.toNat - 'A'.toNat + 10
  else 36

/-- An unsigned integer in a base. -/
def readBase (base : Nat) (cs : List Char) : Option Binary64 :=
  if cs.isEmpty || cs.any (fun c => base ≤ digitValue c) then none
  else some (ofInt (cs.foldl (fun n c => base * n + digitValue c) 0 : Nat))

/-- A decimal or `Infinity` after its sign. -/
def readSigned (negative : Bool) (cs : List Char) : Binary64 :=
  if cs == "Infinity".toList then .infinite negative else (readDecimal negative cs).getD .nan

/-- The number that the characters stand for, blanks removed. -/
def ofChars : List Char → Binary64
  | [] => zero false
  | '-' :: cs => readSigned true cs
  | '+' :: cs => readSigned false cs
  | '0' :: b :: cs =>
    if b == 'x' || b == 'X' then (readBase 16 cs).getD .nan
    else if b == 'o' || b == 'O' then (readBase 8 cs).getD .nan
    else if b == 'b' || b == 'B' then (readBase 2 cs).getD .nan
    else readSigned false ('0' :: b :: cs)
  | cs => readSigned false cs

/-- The number that a text stands for, not-a-number when it stands for none. -/
def ofText (s : String) : Binary64 := ofChars (Text.trimChars s.toList)

/-- The integer that a text starts with, after blanks and a sign. -/
def leadingInt (s : String) : Option Binary64 :=
  let cs := s.toList.dropWhile Text.isBlank
  let (negative, cs) := match cs with
    | '-' :: r => (true, r)
    | '+' :: r => (false, r)
    | r => (false, r)
  let digits := cs.takeWhile Char.isDigit
  if digits.isEmpty then none else some (ofDecimal negative (Text.digitsToNat digits) 0)

end Binary64

end Wordstack
