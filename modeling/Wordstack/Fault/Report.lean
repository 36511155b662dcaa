import Wordstack.Json.Basic
import Wordstack.Text.Basic

/-!
# Failure reports

The form in which a failure leaves a runtime.

- **Reports** (`Report`): message, runtime, kind of error and what is known about its place.
- **Wire form** (`Report.toJson`, `Report.ofJson`): reading fills in what the other side left out,
  so it accepts every JSON value.
- **Texts** (`Report.summary`, `Report.trace?`, `Report.full`): the message of a remote failure, the
  other runtime's trace, and a page about the failure.
-/

namespace Wordstack

/-- What a runtime tells about a failure. -/
structure Report where
  message : String
  /-- The runtime that raised the failure. -/
  runtime : String
  stackTrace : List String
  errorType : String
  wordLocation : Option String
  moduleName : Option String
  context : List (String × String)
deriving DecidableEq

namespace Report

/-- Context keys in the order of plain objects. The key `__proto__` names no entry. -/
def contextOf (entries : List (String × String)) : List (String × String) :=
  indexedFirst (Json.distinctFields (entries.filter fun e => e.1 != "__proto__"))

/-- The wire form; absent parts are left out. -/
def toJson (r : Report) : Json :=
  Json.ofFields [
    ("message", some (.str r.message)),
    ("runtime", some (.str r.runtime)),
    ("stack_trace", some (Json.strs r.stackTrace)),
    ("error_type", some (.str r.errorType)),
    ("context", some (.obj (r.context.map fun e => (e.1, .str e.2)))),
    ("word_location", r.wordLocation.map .str),
    ("module_name", r.moduleName.map .str)]

/-- The text of a field, if it is a text with characters. -/
def textField? (key : String) (x : Json) : Option String :=
  match x.field? key with
  | some (.str s) => if s.isEmpty then none else some s
  | _ => none

/-- The report that a JSON value holds, with stand-ins for what is missing or of another shape. -/
def ofJson (x : Json) : Report where
  message := (textField? "message" x).getD "Unknown error"
  runtime := (textField? "runtime" x).getD "unknown"
  stackTrace := (((x.field? "stack_trace").bind Json.arr?).getD []).filterMap Json.str?
  errorType := (textField? "error_type" x).getD "Error"
  wordLocation := textField? "word_location" x
  moduleName := textField? "module_name" x
  context := contextOf (indexedFirst ((((x.field? "context").bind Json.obj?).getD []).filterMap
    fun e => e.2.str?.map fun s => (e.1, s)))

/-- The message of the failure on the calling side. -/
def summary (r : Report) : String :=
  "Error in " ++ r.runtime ++ " runtime: " ++ r.message ++
    (r.moduleName.map fun m => "\n  Module: " ++ m).getD "" ++
    (r.wordLocation.map fun l => "\n  Location: " ++ l).getD "" ++
    (if r.context.isEmpty then ""
     else "\n  Context:" ++ String.join (r.context.map fun e => "\n    " ++ e.1 ++ ": " ++ e.2))

/-- The trace of the other runtime under a heading, if there is one. -/
def trace? (r : Report) : Option String :=
  if r.stackTrace.isEmpty then none
  else some ("Remote stack (" ++ r.runtime ++ "):\n" ++ Text.join "\n" r.stackTrace)

/-- A page about the failure. -/
def full (r : Report) : String :=
  let rule := Text.replicate 80 '='
  let thinRule := Text.replicate 80 '-'
  Text.join "\n" <|
    [rule, "REMOTE RUNTIME ERROR", rule, "", "Runtime: " ++ r.runtime,
      "Error Type: " ++ r.errorType, "Message: " ++ r.message] ++
    (r.moduleName.map fun m => "Module: " ++ m).toList ++
    (r.wordLocation.map fun l => "Location: " ++ l).toList ++
    (if r.context.isEmpty then []
     else ["", "Context:"] ++ r.context.map fun e => "  " ++ e.1 ++ ": " ++ e.2) ++
    ["", thinRule, "Stack Trace:", thinRule] ++ r.stackTrace ++ [rule]

end Report

end Wordstack
