import Wordstack.Value.Basic
import Wordstack.Binary64.Show
import Wordstack.Text.Quoted

/-!
# The display form of values

`Val.display` writes a value on one line: texts quoted, arrays in brackets with spaces between the
items, records in braces with quoted keys, integral floating point numbers with one decimal place.
In-process values show their kind and name between angle brackets.
-/

namespace Wordstack

namespace Val

mutual
/-- The one-line form of a value. -/
def display : Val → String
  | int n => toString n
  | float x => x.onePlace
  | bool b => if b then "TRUE" else "FALSE"
  | str s => Text.quote s
  | null => "NULL"
  | array items => "[" ++ Text.join " " (displayItems items) ++ "]"
  | record fields => "\x7b" ++ Text.join ", " (displayFields fields) ++ "\x7d"
  | instant iso => iso
  | plainDate iso => iso
  | zoned iso zone => iso ++ "[" ++ zone ++ "]"
  | wordRef ref => "<word " ++ ref.name ++ ">"
  | moduleRef ref => "<module " ++ ref.name ++ ">"
  | variableRef ref => "<variable " ++ ref.name ++ ">"
  | options _ entries => "<options " ++ Text.join " " (displayEntries entries) ++ ">"

/-- The forms of items. -/
def displayItems : List Val → List String
  | [] => []
  | v :: vs => display v :: displayItems vs

/-- The fields of a record, each key quoted and followed by a colon. -/
def displayFields : List (String × Val) → List String
  | [] => []
  | (k, v) :: vs => (Text.quote k ++ ": " ++ display v) :: displayFields vs

/-- The entries of options, each key after a dot. -/
def displayEntries : List (String × Val) → List String
  | [] => []
  | (k, v) :: vs => ("." ++ k ++ " " ++ display v) :: displayEntries vs
end

end Val

end Wordstack
