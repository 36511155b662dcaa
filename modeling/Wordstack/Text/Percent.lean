import Wordstack.Text.Quoted

/-!
# Percent encoding

`%` and two hexadecimal digits stand for a byte, and the bytes are text in UTF-8.

- **Decoding** (`Text.percentDecode?`): the text that is meant, if all escapes are well formed.
- **Encoding** (`Text.percentEncode`): escapes for all characters that an address may not hold; an
  escape that is there already stays.
-/

namespace Wordstack

namespace Text

/-- The value of a hexadecimal digit. -/
def hexDigit? (c : Char) : Option Nat :=
  if c.isDigit then some (c.toNat - '0'.toNat)
  else if 'a' ≤ c ∧ c ≤ 'f' then some (c.toNat - 'a'.toNat + 10)
  else if 'A' ≤ c ∧ c ≤ 'F' then some (c.toNat - 'A'.toNat + 10)
  else none

/-- The bytes that characters stand for. -/
def percentBytes : List Char → Option (List UInt8)
  | [] => some []
  | '%' :: a :: b :: rest => do
    let high ← hexDigit? a
    let low ← hexDigit? b
    return UInt8.ofNat (16 * high + low) :: (← percentBytes rest)
  | c :: rest => if c == '%' then none else do
    return (String.singleton c).toUTF8.toList ++ (← percentBytes rest)

/-- The text that an encoded text stands for, if it is well formed. -/
def percentDecode? (s : String) : Option String := do
  String.fromUTF8? ⟨(← percentBytes s.toList).toArray⟩

/-- The escape of a byte. -/
def percentByte (b : UInt8) : List Char :=
  ['%', (hexDigit (b.toNat / 16)).toUpper, (hexDigit (b.toNat % 16)).toUpper]

/-- The escapes of the bytes of a character. -/
def percentChar (c : Char) : List Char :=
  (String.singleton c).toUTF8.toList.flatMap percentByte

/-- Characters that stand for themselves in an address, brackets and some marks aside. -/
def isAddressChar (c : Char) : Bool :=
  c.isAlphanum || ";/?:@&=+$,#-_.!~*'()".toList.contains c

/-- Characters that stand for themselves where no broken escape is near. -/
def isLeftAlone (c : Char) : Bool :=
  let n := c.toNat
  0x21 ≤ n && n ≤ 0x7E && !"\"<>`\x7b\x7d".toList.contains c

/-- The number of characters of a broken escape at the start of a text: a percent sign, the digit
that may follow it, and the character that should have been one. -/
def brokenEscape : List Char → Nat
  | ['%'] => 1
  | '%' :: a :: rest =>
    if (hexDigit? a).isNone then 2
    else
      match rest with
      | [] => 0
      | b :: _ => if (hexDigit? b).isNone then 3 else 0
  | _ => 0

/-- Escapes in a text; of the first `broken` characters all are escaped that an address may not
hold. -/
def percentEncodeFrom (broken : Nat) : List Char → List Char
  | [] => []
  | c :: cs =>
    let broken := if broken = 0 then brokenEscape (c :: cs) else broken
    let kept := if broken = 0 then isLeftAlone c else isAddressChar c
    (if kept then [c] else percentChar c) ++ percentEncodeFrom (broken - 1) cs

/-- The text with escapes for the characters that an address may not hold. -/
def percentEncode (s : String) : String := String.ofList (percentEncodeFrom 0 s.toList)

end Text

end Wordstack
