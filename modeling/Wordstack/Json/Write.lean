import Wordstack.Json.Basic
import Wordstack.Binary64.Show
import Wordstack.Text.Quoted

/-!
# JSON as text

`Json.toText` writes a value without spaces. Numbers take their shortest text; a number that JSON
has no text for is written `null`.
-/

namespace Wordstack

namespace Json

/-- The text of a number. -/
def numText (x : Binary64) : String := if x.isFinite then x.toText else "null"

mutual
/-- The text of a value. -/
def toText : Json → String
  | null => "null"
  | bool b => if b then "true" else "false"
  | num x => numText x
  | str s => Text.quote s
  | arr items => "[" ++ Text.join "," (itemTexts items) ++ "]"
  | obj fields => "\x7b" ++ Text.join "," (fieldTexts fields) ++ "\x7d"

/-- The texts of the items of an array. -/
def itemTexts : List Json → List String
  | [] => []
  | x :: xs => toText x :: itemTexts xs

/-- The texts of the fields of an object. -/
def fieldTexts : List (String × Json) → List String
  | [] => []
  | (k, x) :: xs => (Text.quote k ++ ":" ++ toText x) :: fieldTexts xs
end

end Json

end Wordstack
