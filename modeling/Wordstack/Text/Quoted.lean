import Wordstack.Text.Basic

/-!
# Quoted texts

- **Double quotes** (`Text.quote`): the quote, the backslash and the control characters are escaped,
  everything else stands for itself.
- **Brief quotes** (`Text.quoteBriefly`): between quotes that the text does not hold, if there are
  any, so that few characters have to be escaped.
-/

namespace Wordstack

namespace Text

/-- A digit below sixteen in lower case. -/
def hexDigit (n : Nat) : Char := if n < 10 then Char.ofNat (48 + n) else Char.ofNat (87 + n)

/-- One character inside quotes. -/
def quoteChar (c : Char) : List Char :=
  if c == '\x22' then ['\\', '\x22']
  else if c == '\\' then ['\\', '\\']
  else if c == '\x08' then ['\\', 'b']
  else if c == '\x0C' then ['\\', 'f']
  else if c == '\n' then ['\\', 'n']
  else if c == '\r' then ['\\', 'r']
  else if c == '\t' then ['\\', 't']
  else if c.toNat < 0x20 then
    ['\\', 'u', '0', '0', hexDigit (c.toNat / 16), hexDigit (c.toNat % 16)]
  else [c]

/-- The characters of a text between double quotes. -/
def quoteChars (cs : List Char) : List Char := '\x22' :: (cs.flatMap quoteChar ++ ['\x22'])

/-- The text between double quotes. -/
def quote (s : String) : String := String.ofList (quoteChars s.toList)

/-- One character between brief quotes. -/
def quoteBrieflyChar (mark c : Char) : List Char :=
  let n := c.toNat
  let upper := fun n => (hexDigit n).toUpper
  if c == mark || c == '\\' then ['\\', c]
  else if c == '\x08' then ['\\', 'b']
  else if c == '\x0C' then ['\\', 'f']
  else if c == '\n' then ['\\', 'n']
  else if c == '\r' then ['\\', 'r']
  else if c == '\t' then ['\\', 't']
  else if n < 0x20 || (0x7F ≤ n && n < 0xA0) then ['\\', 'x', upper (n / 16), upper (n % 16)]
  else [c]

/-- The text between single quotes. If it holds one, then between double quotes; if it holds these
as well, then between back quotes, unless a back quote or the start of a placeholder is in it. -/
def quoteBriefly (s : String) : String :=
  let single := '\''
  let back := Char.ofNat 0x60
  let has := fun c => s.toList.contains c
  let mark :=
    if !has single then single else if !has '"' then '"'
    else if has back || contains s "$\x7b" then single else back
  String.ofList (mark :: (s.toList.flatMap (quoteBrieflyChar mark) ++ [mark]))

/-- A text of at most `n` units, or what fits of it and an ellipsis. -/
def excerpt (n : Nat) (s : String) : String :=
  if length s ≤ n then s else String.ofList (takeUnits n s.toList) ++ "..."

end Text

end Wordstack
