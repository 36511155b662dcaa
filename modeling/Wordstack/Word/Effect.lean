import Wordstack.Fault.Basic
import Wordstack.Text.Basic

/-!
# Stack effects

A stack effect such as `( a b [options:WordOptions] -- c )` names what a word takes and leaves.

- **Effects** (`StackEffect`): the inputs without the options slot, whether there is one, and the
  outputs.
- **Reading** (`StackEffect.ofText`): items are words between blanks. The options slot is the last
  input; the other items neither begin nor end with a colon nor contain `--`.
- **Writing** (`StackEffect.toText`).
-/

namespace Wordstack

/-- What a word takes from the stack and leaves on it. -/
structure StackEffect where
  inputs : List String
  hasOptions : Bool
  outputs : List String
deriving DecidableEq

namespace StackEffect

/-- The text before the first `--` and the text after it. -/
def splitDashes : List Char → Option (List Char × List Char)
  | '-' :: '-' :: rest => some ([], rest)
  | c :: rest => (splitDashes rest).map fun r => (c :: r.1, r.2)
  | [] => none

/-- The parts between the parentheses, before and after `--`, without blanks at their ends. -/
def parts (cs : List Char) : Option (List Char × List Char) :=
  match cs, cs.getLast? with
  | '(' :: rest, some ')' =>
    match splitDashes rest.dropLast with
    | some (before, after) => some (Text.trimChars before, Text.trimChars after)
    | none => none
  | _, _ => none

/-- The words of a side, none for an empty one. -/
def items (cs : List Char) : List String :=
  if cs.isEmpty then [] else (Text.splitBlank cs).map String.ofList

/-- Characters of the name of an options slot. -/
def isNameChar (c : Char) : Bool := c.isAlphanum || c == '_'

/-- Whether an item is an options slot: a name and the type of options in brackets. -/
def isOptionsSlot (item : String) : Bool :=
  match item.toList with
  | '[' :: rest =>
    let name := rest.takeWhile isNameChar
    !name.isEmpty && rest.dropWhile isNameChar == ":WordOptions]".toList
  | _ => false

/-- Whether an item can stand for one value. -/
def isItem (item : String) : Bool :=
  !(Text.startsWith item ":" || Text.endsWith item ":" || Text.contains item "--")

/-- The effect that a text describes. -/
def ofText (text : String) : Except Fault StackEffect :=
  let fail := fun note => Except.error (Fault.badStackEffect text note)
  match parts (Text.trimChars text.toList) with
  | none => fail "Stack effect must look like ( inputs -- outputs )"
  | some (before, after) =>
    let inputs := items before
    let outputs := items after
    let positional := inputs.takeWhile fun item => !Text.startsWith item "["
    let check := fun (hasOptions : Bool) =>
      match (positional ++ outputs).find? fun item => !isItem item with
      | some item => fail ("Invalid stack item " ++ item)
      | none => .ok ⟨positional, hasOptions, outputs⟩
    match inputs.drop positional.length with
    | [] => check false
    | slot :: rest =>
      if !isOptionsSlot slot then fail ("Invalid options input " ++ slot)
      else if !rest.isEmpty then fail "Options must be the last input"
      else check true

/-- The text of an effect. -/
def toText (e : StackEffect) : String :=
  Text.join " " (["("] ++ e.inputs ++ (if e.hasOptions then ["[options:WordOptions]"] else []) ++
    ["--"] ++ e.outputs ++ [")"])

end StackEffect

end Wordstack
