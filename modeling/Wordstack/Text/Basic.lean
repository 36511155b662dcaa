/-!
# Texts

- **Width** (`Text.width`, `Text.units`): columns and positions count 16-bit units: a character above
  `U+FFFF` counts for two. The units of a concatenation are the sum of the units (`units_append`).
- **Blanks** (`Text.isBlank`): the controls `U+0009` to `U+000D`, the space and every space
  separator, the line and paragraph separators and the byte order mark.
- **Trimming** (`Text.trim`): a text without the blanks at its two ends.
- **Words** (`Text.splitBlank`): the parts between runs of blanks. A blank at an end leaves an
  empty part there, and the empty text is one empty part.
- **Containment** (`Text.startsWith`, `Text.endsWith`, `Text.contains`).
- **Splitting** (`Text.splitAt`): the parts between occurrences of one character; a text without
  it is its only part.
- **Joining** (`Text.join`): the parts with a separator between them.
-/

namespace Wordstack

/-! ## Lengths in 16-bit units -/

namespace Text

/-- The 16-bit units of one character: two above `U+FFFF`, otherwise one. -/
def width (c : Char) : Nat := if c.val < 0x10000 then 1 else 2

/-- The 16-bit units of a sequence of characters. -/
def units : List Char → Nat
  | [] => 0
  | c :: cs => width c + units cs

@[simp] theorem units_nil : units [] = 0 := rfl

@[simp] theorem units_cons (c : Char) (cs : List Char) : units (c :: cs) = width c + units cs := rfl

@[simp] theorem units_append (xs ys : List Char) : units (xs ++ ys) = units xs + units ys := by
  induction xs with
  | nil => simp
  | cons c xs ih => simp [ih, Nat.add_assoc]

/-- The characters at the start that fit into `n` units. -/
def takeUnits (n : Nat) : List Char → List Char
  | [] => []
  | c :: cs => if width c ≤ n then c :: takeUnits (n - width c) cs else []

/-- The 16-bit units of a string. -/
def length (s : String) : Nat := units s.toList

end Text

/-! ## Blank characters -/

namespace Text

/-- Blank characters: tab to carriage return, every space separator, the two line separators and
the byte order mark. -/
def isBlank (c : Char) : Bool :=
  let n := c.toNat
  (0x09 ≤ n && n ≤ 0x0D) || n == 0x20 || n == 0xA0 || n == 0x1680 || (0x2000 ≤ n && n ≤ 0x200A) ||
    n == 0x2028 || n == 0x2029 || n == 0x202F || n == 0x205F || n == 0x3000 || n == 0xFEFF

/-- The characters without the blanks at their end. -/
def trimEnd (cs : List Char) : List Char := (cs.reverse.dropWhile isBlank).reverse

/-- The characters without the blanks at both ends. -/
def trimChars (cs : List Char) : List Char := trimEnd (cs.dropWhile isBlank)

/-- The text without the blanks at both ends. -/
def trim (s : String) : String := String.ofList (trimChars s.toList)

/-- The parts between runs of blanks, read with `part` gathered so far in reverse and `gap` telling
that the last character was a blank. -/
def splitBlankFrom (part : List Char) (gap : Bool) : List Char → List (List Char)
  | [] => if gap then [part.reverse, []] else [part.reverse]
  | c :: cs =>
    if isBlank c then splitBlankFrom part true cs
    else if gap then part.reverse :: splitBlankFrom [c] false cs
    else splitBlankFrom (c :: part) false cs

/-- The parts of a text between runs of blanks. -/
def splitBlank (cs : List Char) : List (List Char) := splitBlankFrom [] false cs

end Text

/-! ## Parts of texts -/

namespace Text

/-- Whether the text begins with `start`. -/
def startsWith (s start : String) : Bool := start.toList.isPrefixOf s.toList

/-- Whether the text ends with `tail`. -/
def endsWith (s tail : String) : Bool := tail.toList.isSuffixOf s.toList

/-- Whether `part` occurs in `cs`. -/
def containsChars (part : List Char) : List Char → Bool
  | [] => part.isEmpty
  | c :: cs => part.isPrefixOf (c :: cs) || containsChars part cs

/-- Whether `part` occurs in the text. -/
def contains (s part : String) : Bool := containsChars part.toList s.toList

/-- The text after its first `n` characters. -/
def drop (s : String) (n : Nat) : String := String.ofList (s.toList.drop n)

/-- The parts of `cs` between occurrences of `sep`. -/
def splitCharsAt (sep : Char) : List Char → List (List Char)
  | [] => [[]]
  | c :: cs =>
    match splitCharsAt sep cs with
    | [] => [[c]]
    | part :: parts => if c == sep then [] :: part :: parts else (c :: part) :: parts

/-- The parts of a text between occurrences of `sep`. -/
def splitAt (sep : Char) (s : String) : List String := (splitCharsAt sep s.toList).map String.ofList

/-- The parts in order with `sep` between neighbours. -/
def join (sep : String) : List String → String
  | [] => ""
  | [part] => part
  | part :: parts => part ++ sep ++ join sep parts

/-- `n` copies of one character. -/
def replicate (n : Nat) (c : Char) : String := String.ofList (List.replicate n c)

/-- Whether every character is a decimal digit `0` to `9` and there is at least one. -/
def allDigits (cs : List Char) : Bool := !cs.isEmpty && cs.all Char.isDigit

/-- The number that decimal digits stand for. -/
def digitsToNat (cs : List Char) : Nat := cs.foldl (fun n c => 10 * n + (c.toNat - '0'.toNat)) 0

/-- The integer that `-`? digits stands for. -/
def toInt (cs : List Char) : Int :=
  match cs with
  | '-' :: ds => -(digitsToNat ds : Int)
  | ds => digitsToNat ds

end Text

end Wordstack
