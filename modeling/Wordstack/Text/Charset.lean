import Wordstack.Text.Basic

/-!
# Character sets

Texts arrive as bytes in one of the encodings of Unicode.

- **Encodings** (`Charset`), by their names (`Charset.ofName?`), of which only letters and digits
  count.
- **Decoding** (`Charset.decode`): bytes that are no character become the replacement character, and
  an odd byte at the end of a text of pairs is lost.
- **Byte order marks** (`Charset.dropMark`): one at the start of a text does not belong to it.
-/

namespace Wordstack

/-- The encodings of Unicode. -/
inductive Charset where
  | utf8
  | utf16le
  | utf16be
  /-- Pairs of bytes, whose order is found from the text itself. -/
  | utf16
  | utf7
deriving DecidableEq

namespace Charset

/-- The letters and digits of a name; a year behind a colon at its end does not count. -/
def plainName (name : String) : String :=
  let cs := name.toList
  let isYear := (cs.reverse.take 4).all Char.isDigit && (cs.reverse.drop 4).head? == some ':'
  String.ofList ((if isYear then cs.dropLast.dropLast.dropLast.dropLast else cs).filter
    fun c => c.isDigit || c.isLower)

/-- The encodings with their names. -/
def named : List (String × Charset) :=
  [("utf8", utf8), ("utf16le", utf16le), ("utf16be", utf16be), ("utf16", utf16), ("utf7", utf7)]

/-- The encoding of a name in lower case. -/
def ofName? (name : String) : Option Charset := named.lookup (plainName name)

/-- The text without a byte order mark at its start. -/
def dropMark : List Char → List Char
  | c :: cs => if c == '\uFEFF' then cs else c :: cs
  | [] => []

/-! ## Pairs of bytes -/

/-- The 16-bit units of pairs of bytes. -/
def unitsOf (highFirst : Bool) : List UInt8 → List Nat
  | a :: b :: rest =>
    (if highFirst then a.toNat * 256 + b.toNat else b.toNat * 256 + a.toNat) ::
      unitsOf highFirst rest
  | _ => []

/-- The characters of units, `high` being the first half of a character that is still open. -/
def ofUnits (high : Option Nat) : List Nat → List Char
  | [] => if high.isSome then ['\uFFFD'] else []
  | u :: us =>
    let lone := if high.isSome then ['\uFFFD'] else []
    if 0xD800 ≤ u && u < 0xDC00 then lone ++ ofUnits (some u) us
    else if 0xDC00 ≤ u && u < 0xE000 then
      match high with
      | some h => Char.ofNat (0x10000 + (h - 0xD800) * 0x400 + (u - 0xDC00)) :: ofUnits none us
      | none => '\uFFFD' :: ofUnits none us
    else lone ++ Char.ofNat u :: ofUnits none us

/-- The characters of pairs of bytes. -/
def ofPairs (highFirst : Bool) (bytes : List UInt8) : List Char :=
  ofUnits none (unitsOf highFirst bytes)

/-- How many of the first units have this byte order and stand for characters below `U+0100`. -/
def narrowUnits (highFirst : Bool) (bytes : List UInt8) : Nat :=
  ((unitsOf highFirst (bytes.take 64)).filter fun u => 0 < u && u < 256).length

/-- Whether the high byte comes first: most characters are expected below `U+0100`. -/
def isHighFirst (bytes : List UInt8) : Bool := narrowUnits false bytes < narrowUnits true bytes

/-! ## Seven bits -/

/-- The six bits that a character of base 64 stands for. -/
def sixBits? (b : UInt8) : Option Nat :=
  let n := b.toNat
  if 65 ≤ n && n ≤ 90 then some (n - 65)
  else if 97 ≤ n && n ≤ 122 then some (n - 71)
  else if 48 ≤ n && n ≤ 57 then some (n + 4)
  else if n == 43 then some 62
  else if n == 47 then some 63
  else none

/-- The bytes in a sequence of six bits each, after `count` bits with the value `bits`. -/
def joinBits (bits count : Nat) : List Nat → List UInt8
  | [] => []
  | v :: vs =>
    let bits := bits * 64 + v
    if count + 6 < 8 then joinBits bits (count + 6) vs
    else
      let left := count + 6 - 8
      UInt8.ofNat (bits / Nat.pow 2 left) :: joinBits (bits % Nat.pow 2 left) left vs

/-- The characters of a run of base 64. -/
def ofRun (run : List Nat) : List Char := dropMark (ofPairs true (joinBits 0 0 run))

/-- The characters of a text in seven bits: `+` begins a run of base 64, of which `run` holds what
has been read so far, and `-` ends it. An empty run is a plus sign. -/
def ofSevenBits (run : Option (List Nat)) : List UInt8 → List Char
  | [] => (run.map ofRun).getD []
  | b :: bs =>
    let plain := if b < 128 then Char.ofNat b.toNat else '\uFFFD'
    match run with
    | none => if plain == '+' then ofSevenBits (some []) bs else plain :: ofSevenBits none bs
    | some vs =>
      match sixBits? b with
      | some v => ofSevenBits (some (vs ++ [v])) bs
      | none =>
        let chars := if vs.isEmpty && plain == '-' then ['+'] else ofRun vs
        chars ++ if plain == '-' then ofSevenBits none bs else plain :: ofSevenBits none bs

/-- The text of bytes without a byte order mark, from the text that the bytes are in UTF-8. -/
def decode (set : Charset) (text : String) : String :=
  let bytes := text.toUTF8.toList
  String.ofList (dropMark (match set with
    | .utf8 => text.toList
    | .utf16le => ofPairs false bytes
    | .utf16be => ofPairs true bytes
    | .utf16 => ofPairs (isHighFirst bytes) bytes
    | .utf7 => ofSevenBits none bytes))

end Charset

end Wordstack
