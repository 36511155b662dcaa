import Wordstack.Fault.Basic

/-!
# Faults in their source

- **In the source** (`Fault.describe`): a fault of the engine with the source up to the failing line
  and a line of carets under the failing text. For a failed definition it shows first the entry and
  then the call.
- **In short** (`Fault.headline`): kind and message.
-/

namespace Wordstack

namespace Fault

/-- The first `n` items; a negative `n` counts from the end. -/
def takeLines (n : Int) (lines : List String) : List String :=
  lines.take (if 0 ≤ n then n.toNat else (lines.length + n).toNat)

/-- The source up to the line of a location, and carets under its span on a line of their own. -/
def highlight (source : String) (l : Location) : String :=
  let carets := Text.replicate (max 1 (l.endPos - l.startPos)).toNat '^'
  Text.join "\n" (takeLines l.line (Text.splitAt '\n' source)) ++ "\n" ++
    Text.replicate (l.column - 1).toNat ' ' ++ carets

/-- The highlighted source between fences. -/
def fenced (source : String) (l : Location) : String :=
  "```\n" ++ highlight source l ++ "\n```"

/-- The line of a location and what the source belongs to, if that has a name. -/
def linePhrase (l : Location) : String :=
  "line " ++ toString l.line ++ (match l.source with
    | some s => if s.isEmpty then "" else " in " ++ s
    | none => "")

/-- The message of a fault with the failing source highlighted. It is the bare message where the
source or the location is missing. -/
def describe (source : String) (f : Fault) : String :=
  match f.location? with
  | some l =>
    if source.isEmpty then f.message
    else match f.definitionLocation? with
      | some d =>
        f.message ++ " at " ++ linePhrase d ++ ":\n" ++ fenced source d ++ "\nCalled from " ++
          linePhrase l ++ ":\n" ++ fenced source l
      | none => f.message ++ " at " ++ linePhrase l ++ ":\n" ++ fenced source l
  | none => f.message

/-- The kind and the message of a fault, or the one of them that is not empty. A bare text is its
own headline. -/
def headline (f : Fault) : String :=
  match f.kindName? with
  | none => f.message
  | some kind =>
    if kind.isEmpty then f.message else if f.message.isEmpty then kind
    else kind ++ ": " ++ f.message

end Fault

end Wordstack
