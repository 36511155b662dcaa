import Wordstack.Text.Basic
import Wordstack.Text.Lower

/-!
# Content types

What a body is said to be: a kind, and parameters after it.

- **Reading** (`ContentType.read?`): a parameter is a name, an equals sign and a word or a quoted
  text; only spaces may stand around them. Kind and names are in lower case.
- **JSON** (`ContentType.isJson`) and **character sets** (`ContentType.charset`): of several
  parameters of one name the last one counts.
-/

namespace Wordstack

/-- The kind of a body with its parameters. -/
structure ContentType where
  kind : String
  parameters : List (String × String)
deriving DecidableEq

namespace ContentType

/-- The characters of words. -/
def isWordChar (c : Char) : Bool := c.isAlphanum || "!#$%&'*+-.^_`|~".toList.contains c

/-- The text after spaces. -/
def skipSpaces (cs : List Char) : List Char := cs.dropWhile (· == ' ')

/-- A word of one character at least, and the text after it. -/
def readWord (cs : List Char) : Option (List Char × List Char) :=
  let word := cs.takeWhile isWordChar
  if word.isEmpty then none else some (word, cs.dropWhile isWordChar)

/-- Characters that stand for themselves in a quoted text. -/
def isQuotedChar (c : Char) : Bool :=
  let n := c.toNat
  0x20 ≤ n && n ≤ 0xFF && n != 0x7F

/-- A quoted text after its opening quote, and the text after its closing one. -/
def readQuoted : List Char → Option (List Char × List Char)
  | '"' :: rest => some ([], rest)
  | '\\' :: c :: rest =>
    if 0x20 ≤ c.toNat && c.toNat ≤ 0x7E then (readQuoted rest).map fun r => (c :: r.1, r.2)
    else none
  | c :: rest =>
    if c != '\\' && isQuotedChar c then (readQuoted rest).map fun r => (c :: r.1, r.2) else none
  | [] => none

/-- A word or a quoted text, and the text after it. -/
def readValue : List Char → Option (List Char × List Char)
  | '"' :: rest => readQuoted rest
  | cs => readWord cs

/-- A parameter, and the text after it. -/
def readParameter : List Char → Option ((String × String) × List Char)
  | ';' :: rest => do
    let (name, rest) ← readWord (skipSpaces rest)
    match skipSpaces rest with
    | '=' :: rest => do
      let (value, rest) ← readValue (skipSpaces rest)
      return ((Text.lower (String.ofList name), String.ofList value), skipSpaces rest)
    | _ => none
  | _ => none

/-- At most `bound` parameters. -/
def readParametersWithin (bound : Nat) (cs : List Char) : Option (List (String × String)) :=
  match bound, cs with
  | _, [] => some []
  | 0, _ => none
  | bound + 1, cs => do
    let (p, rest) ← readParameter cs
    return p :: (← readParametersWithin bound rest)

/-- The content type that a text stands for. -/
def read? (s : String) : Option ContentType := do
  let cs := s.toList
  let kind := (skipSpaces (cs.takeWhile (· != ';'))).reverse
  let rest := cs.dropWhile (· != ';')
  return ⟨Text.lower (String.ofList (skipSpaces kind).reverse),
    ← readParametersWithin rest.length rest⟩

/-- Whether a body is JSON. -/
def isJson (t : ContentType) : Bool := t.kind == "application/json"

/-- The name of the character set in lower case; without one it is UTF-8. -/
def charset (t : ContentType) : String :=
  let name := (t.parameters.reverse.lookup "charset").getD ""
  if name.isEmpty then "utf-8" else Text.lower name

end ContentType

end Wordstack
