import Wordstack.Fault.Basic
import Wordstack.Inspect.Value
import Wordstack.Machine.Console
import Wordstack.Machine.Profile
import Wordstack.Source.Scanner

/-!
# Faults and activity for inspection

- **Details** (`Inspect.faultDetails`): what a kind of fault knows besides message, location and
  cause.
- **Faults** (`Inspect.fault`): kind and message; for faults of the engine also the location, the
  source, the details and the cause in the same form.
- **Reports** (`Inspect.remoteReport`): what another runtime said of a fault.
- **Outcomes** (`Inspect.outcome`): a result or a fault.
- **Tokens** (`Inspect.token`): kind, text and location.
- **Console lines** (`Inspect.consoleLine`): the stream and the text.
- **Counts** (`Inspect.counts`): how often words were dispatched.
-/

namespace Wordstack.Inspect

/-! ## Faults -/

/-- What a kind of fault knows besides message, location and cause. -/
def faultDetails : Fault → List (String × Json)
  | .unmatchedBracket _ bracket _ => [("bracket", .str bracket)]
  | .unknownWord _ word scope _ => [("word", .str word), ("scopeChain", Json.strs scope)]
  | .nativeWord word module underlying _ _ =>
    [("word", .str word), ("moduleName", .str module), ("underlying", .str underlying)]
  | .badStackEffect effect _ => [("stackEffect", .str effect)]
  | .invalidVariableName _ name _ => [("varname", .str name)]
  | .unknownModule _ module _ | .moduleFailed module _ | .moduleLoad module _ _ =>
    [("moduleName", .str module)]
  | .tooManyAttempts _ n limit => [("numAttempts", number n), ("maxAttempts", number limit)]
  | .requestTimeout method ms => [("method", .str method), ("timeoutMs", number ms)]
  | .remoteRuntime address _ _ => [("address", .str address)]
  | _ => []

/-- Kind and message of a fault. The words of a host's syntax error are its own affair. -/
def faultHead : Fault → List (String × Json)
  | .host "SyntaxError" _ => [("error", .str "SyntaxError")]
  | f => [("error", .str (f.kindName?.getD "string")), ("message", .str f.message)]

/-- A fault whose cause is shown already. -/
def faultOver (f : Fault) (cause : Option Json) : Json :=
  if !f.isEngine then .obj (faultHead f)
  else
    let source := if f.sourceText.isEmpty then [] else [("forthic", Json.str f.sourceText)]
    let definition := (f.definitionLocation?.map fun l => ("def_loc", location l)).toList
    let details := faultDetails f
    let extra := if details.isEmpty then [] else [("fields", Json.obj details)]
    let below := (cause.map fun c => ("cause", c)).toList
    .obj (faultHead f ++ [("loc", option location f.location?)] ++ source ++ definition ++ extra ++
      below)

/-- A fault with its causes. -/
def fault (f : Fault) : Json :=
  faultOver f (f.causes.foldr (fun c below => some (faultOver c below)) none)

/-- A report of another runtime with the texts that are made of it. The first part of its trace is
always the local one. -/
def remoteReport (r : Report) : Json :=
  .obj [("info", r.toJson), ("message", .str (Fault.remoteExecution r).message),
    ("runtime", .str r.runtime), ("error_type", .str r.errorType),
    ("remote_stack", Json.strs r.stackTrace), ("report", .str r.full), ("full_head", .bool true),
    ("full_tail", text? r.trace?)]

/-- A result, shown by `f`, or the fault that came instead. -/
def outcome {α : Type} (f : α → Json) : Except Fault α → Json
  | .ok a => .obj [("result", f a)]
  | .error e => fault e

/-! ## Activity -/

/-- The names of the kinds of tokens. -/
def tokenKinds : List (TokenKind × String) := [
  (.word, "Word"), (.str, "Str"), (.comment, "Comment"), (.startArray, "StartArray"),
  (.endArray, "EndArray"), (.startModule, "StartModule"), (.endModule, "EndModule"),
  (.startDef, "StartDef"), (.startMemo, "StartMemo"), (.endDef, "EndDef"),
  (.dotSymbol, "DotSymbol"), (.eos, "EOS")]

/-- The kind of token with a name. -/
def tokenKindOf? (name : String) : Option TokenKind :=
  (tokenKinds.find? fun k => k.2 == name).map (·.1)

/-- A token without its location. -/
def bareToken (t : Token) : Json := .arr [text? (tokenKinds.lookup t.kind), .str t.text]

/-- A token. -/
def token (t : Token) : Json :=
  .arr [text? (tokenKinds.lookup t.kind), .str t.text, location t.location]

/-- The tokens of a source text, and where scanning ended and why, if it did before the end. -/
def scan (s : Scanner) : Json :=
  let r := s.tokens
  let (last, fail) := match r.stop with
    | .ok t => ([token t], [])
    | .error f => ([], [("fail", fault f)])
  .obj ([("input", .str s.input), ("tokens", .arr (r.tokens.map token ++ last)),
    ("end", location r.scanner.location)] ++ fail)

/-- The names of the streams. -/
def streamName : Stream → String
  | .log => "log"
  | .warn => "warn"
  | .error => "error"
  | .debug => "debug"

/-- A line on the console. -/
def consoleLine (l : ConsoleLine) : Json := .arr [.str (streamName l.stream), .str l.text]

/-- Dispatches by word. -/
def counts (p : Profile) : Json :=
  .arr (p.histogram.map fun e => .obj [("word", .str e.1), ("count", nat e.2)])

end Wordstack.Inspect
