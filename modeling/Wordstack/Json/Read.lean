import Wordstack.Binary64.Read
import Wordstack.Binary64.Show
import Wordstack.Json.Basic
import Wordstack.Text.Basic

/-!
# Reading JSON

- **Texts** (`Json.ofText?`): exactly the JSON grammar. A key that occurs twice in an object keeps its
  first place and its last value. An escape of a lone surrogate becomes the replacement character.
- **Lenient views**, for data whose shape is taken on trust: a part that is missing, or of another
  shape than the wanted one, counts as empty.
  - Parts (`Json.part`, `Json.given`, `Json.nth`).
  - Contents (`Json.asText`, `Json.asItems`, `Json.asFields`, `Json.asInt`, `Json.asFlag`).
  - Plain texts (`Json.plainText`): what a log line shows of a value.
-/

namespace Wordstack

/-! ## Texts -/

namespace Json

/-- The text after spaces, tabs and line ends. -/
def skipSpace : List Char → List Char :=
  List.dropWhile fun c => c == ' ' || c == '\t' || c == '\n' || c == '\r'

/-- The value of four hexadecimal digits and what follows them. -/
def readHex4 : List Char → Option (Nat × List Char)
  | a :: b :: c :: d :: rest =>
    if [a, b, c, d].all fun x => Binary64.digitValue x < 16 then
      some ([a, b, c, d].foldl (fun n x => 16 * n + Binary64.digitValue x) 0, rest)
    else none
  | _ => none

/-- The character of the unit `u` read from an escape, and what follows it: the first half of a
pair joins with an escaped second half. -/
def joinUnits (u : Nat) (rest : List Char) : Char × List Char :=
  let lone := (Char.ofNat 0xFFFD, rest)
  if 0xD800 ≤ u && u < 0xDC00 then
    match rest with
    | '\\' :: 'u' :: more =>
      match readHex4 more with
      | some (v, after) =>
        if 0xDC00 ≤ v && v < 0xE000 then
          (Char.ofNat (0x10000 + (u - 0xD800) * 0x400 + (v - 0xDC00)), after)
        else lone
      | none => lone
    | _ => lone
  else if 0xDC00 ≤ u && u < 0xE000 then lone
  else (Char.ofNat u, rest)

/-- The rest of a string after its opening quote, with the characters read so far in reverse. -/
def readStringFrom (fuel : Nat) (acc : List Char) (cs : List Char) : Option (String × List Char) :=
  match fuel with
  | 0 => none
  | fuel + 1 =>
    match cs with
    | [] => none
    | '\x22' :: rest => some (String.ofList acc.reverse, rest)
    | '\\' :: e :: rest =>
      let one := fun c => readStringFrom fuel (c :: acc) rest
      match e with
      | '\x22' => one '\x22'
      | '\\' => one '\\'
      | '/' => one '/'
      | 'b' => one '\x08'
      | 'f' => one '\x0C'
      | 'n' => one '\n'
      | 'r' => one '\r'
      | 't' => one '\t'
      | 'u' =>
        match readHex4 rest with
        | some (u, after) =>
          let (c, after) := joinUnits u after
          readStringFrom fuel (c :: acc) after
        | none => none
      | _ => none
    | '\\' :: [] => none
    | c :: rest => if c.toNat < 0x20 then none else readStringFrom fuel (c :: acc) rest

/-- A string after its opening quote. -/
def readString (cs : List Char) : Option (String × List Char) :=
  readStringFrom (cs.length + 1) [] cs

/-- A number: an optional minus, digits without a leading zero, an optional fraction and an
optional exponent. -/
def readNumber (cs : List Char) : Option (Binary64 × List Char) :=
  let (negative, cs) := match cs with
    | '-' :: r => (true, r)
    | r => (false, r)
  let whole := cs.takeWhile Char.isDigit
  let rest := cs.dropWhile Char.isDigit
  if whole.isEmpty || (whole.length > 1 && whole.head? == some '0') then none
  else
    let (places, rest) := match rest with
      | '.' :: r => (some (r.takeWhile Char.isDigit), r.dropWhile Char.isDigit)
      | r => (none, r)
    if places == some [] then none
    else
      let digits := Text.digitsToNat (whole ++ places.getD [])
      let shift : Int := (places.getD []).length
      let plain := some (Binary64.ofDecimal negative digits (-shift), rest)
      match rest with
      | e :: r =>
        if e == 'e' || e == 'E' then
          let (down, r) := match r with
            | '-' :: r => (true, r)
            | '+' :: r => (false, r)
            | r => (false, r)
          let ds := r.takeWhile Char.isDigit
          if ds.isEmpty then none
          else
            let n : Int := Text.digitsToNat ds
            some (Binary64.ofDecimal negative digits ((if down then -n else n) - shift),
              r.dropWhile Char.isDigit)
        else plain
      | [] => plain

mutual
/-- A value at the start of the text, after spaces. -/
def readValue (fuel : Nat) (cs : List Char) : Option (Json × List Char) :=
  match fuel with
  | 0 => none
  | fuel + 1 =>
    match skipSpace cs with
    | '{' :: rest =>
      match skipSpace rest with
      | '}' :: rest => some (obj [], rest)
      | rest => (readFields fuel [] rest).map fun r => (obj r.1, r.2)
    | '[' :: rest =>
      match skipSpace rest with
      | ']' :: rest => some (arr [], rest)
      | rest => (readItems fuel [] rest).map fun r => (arr r.1, r.2)
    | '\x22' :: rest => (readString rest).map fun r => (str r.1, r.2)
    | 't' :: 'r' :: 'u' :: 'e' :: rest => some (bool true, rest)
    | 'f' :: 'a' :: 'l' :: 's' :: 'e' :: rest => some (bool false, rest)
    | 'n' :: 'u' :: 'l' :: 'l' :: rest => some (null, rest)
    | cs => (readNumber cs).map fun r => (num r.1, r.2)

/-- The items of an array up to its closing bracket, with those read so far in reverse. -/
def readItems (fuel : Nat) (acc : List Json) (cs : List Char) : Option (List Json × List Char) :=
  match fuel with
  | 0 => none
  | fuel + 1 =>
    match readValue fuel cs with
    | none => none
    | some (x, rest) =>
      match skipSpace rest with
      | ',' :: rest => readItems fuel (x :: acc) rest
      | ']' :: rest => some ((x :: acc).reverse, rest)
      | _ => none

/-- The fields of an object up to its closing brace, with those read so far in reverse. -/
def readFields (fuel : Nat) (acc : List (String × Json)) (cs : List Char) :
    Option (List (String × Json) × List Char) :=
  match fuel with
  | 0 => none
  | fuel + 1 =>
    match skipSpace cs with
    | '\x22' :: rest =>
      match readString rest with
      | none => none
      | some (key, rest) =>
        match skipSpace rest with
        | ':' :: rest =>
          match readValue fuel rest with
          | none => none
          | some (x, rest) =>
            match skipSpace rest with
            | ',' :: rest => readFields fuel ((key, x) :: acc) rest
            | '}' :: rest => some (distinctFields ((key, x) :: acc).reverse, rest)
            | _ => none
        | _ => none
    | _ => none
end

/-- The value that a text stands for, `none` when the text is not JSON. -/
def ofText? (s : String) : Option Json :=
  let cs := s.toList
  match readValue (2 * cs.length + 2) cs with
  | some (x, rest) => if (skipSpace rest).isEmpty then some x else none
  | none => none

end Json

/-! ## Lenient views -/

namespace Json

/-- The value of a key, null when there is none. -/
def part (x : Json) (key : String) : Json := (x.field? key).getD .null

/-- The value of a key that is there and not null. -/
def given (x : Json) (key : String) : Option Json :=
  match x.field? key with
  | some .null => none
  | r => r

/-- The text of a string. -/
def asText (x : Json) : String := x.str?.getD ""

/-- The items of an array. -/
def asItems (x : Json) : List Json := x.arr?.getD []

/-- An item of an array, null when there is none. -/
def nth (x : Json) (i : Nat) : Json := (x.asItems[i]?).getD .null

/-- The texts in an array. -/
def asTexts (x : Json) : List String := x.asItems.map asText

/-- The fields of an object. -/
def asFields (x : Json) : List (String × Json) := x.obj?.getD []

/-- An array of pairs as fields. -/
def asPairs (x : Json) : List (String × Json) :=
  x.asItems.map fun p => ((p.nth 0).asText, p.nth 1)

/-- A whole number. -/
def asInt (x : Json) : Int := (x.num?.bind Binary64.toInt?).getD 0

/-- A truth value. -/
def asFlag : Json → Bool
  | .bool b => b
  | _ => false

mutual
/-- A value as a plain text: a string is its own, an array shows its items between commas. -/
def plainText : Json → String
  | null => "null"
  | bool b => if b then "true" else "false"
  | num x => x.toText
  | str s => s
  | arr items => Text.join "," (plainItems items)
  | obj _ => "[object Object]"

/-- The plain texts of the items of an array, where null shows nothing. -/
def plainItems : List Json → List String
  | [] => []
  | null :: xs => "" :: plainItems xs
  | x :: xs => plainText x :: plainItems xs
end

end Json

end Wordstack
