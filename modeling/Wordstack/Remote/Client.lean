import Wordstack.Module.Registry
import Wordstack.Text.Basic
import Wordstack.Wire.Request

/-!
# Clients of other runtimes

A client calls the bridge of another runtime at an address. What comes back from the transport is a
status with a JSON body, or the fault that kept it from coming.

- **Addresses** (`Client.baseUrl`): `host:port` stands for `http://host:port`.
- **Settling** (`Client.settle`): a reply that carries an error is a remote failure, and anything
  that is not a reply of the protocol a failure to reach the runtime.
- **Results** (`Client.resultStack`, `Client.moduleList`, `Client.moduleDoc`): what the fields of a
  reply hold. Missing texts are empty.
-/

namespace Wordstack

/-- What the transport brings back: a status and a body, or a fault. -/
abbrev Delivery := Except Fault (Int × Json)

/-- A caller of another runtime. -/
structure Client where
  address : String
  /-- The deadline of a call in milliseconds. -/
  timeout : Binary64
  closed : Bool := false

namespace Client

/-- Whether a text begins with a scheme and `://`. -/
def hasScheme (cs : List Char) : Bool :=
  let isSchemeChar := fun (c : Char) => c.isAlphanum || c == '+' || c == '.' || c == '-'
  (cs.head?.map Char.isAlpha).getD false &&
    "://".toList.isPrefixOf (cs.dropWhile isSchemeChar)

/-- The address as a URL without slashes at its end. -/
def normalize (address : String) : String :=
  let cs := ((Text.trimChars address.toList).reverse.dropWhile (· == '/')).reverse
  if hasScheme cs then String.ofList cs else "http://" ++ String.ofList cs

/-- The URL that requests of the client go to. -/
def baseUrl (c : Client) : String := normalize c.address

/-- The URL of a method. -/
def url (c : Client) (method : Method) : String := c.baseUrl ++ "/rpc/" ++ method.name

/-- A failure to reach the runtime. -/
def unreachable (c : Client) (note : String) (cause : Option Fault) : Fault :=
  .remoteRuntime c.address note cause

/-- The fault of every call through a closed client. -/
def closedFault (c : Client) : Fault := c.unreachable "client is closed" none

/-- The fields of a reply, or what the delivery says about the failure of the call. -/
def settle (c : Client) (method : Method) : Delivery → Except Fault (List (String × Json))
  | .error (.host "AbortError" message) =>
    .error (c.unreachable (method.name ++ " timed out after " ++ c.timeout.toText ++ "ms")
      (some (.host "AbortError" message)))
  | .error f => .error (c.unreachable (method.name ++ " failed: " ++ f.message) (some f))
  | .ok (status, .obj fields) =>
    match fields.lookup "error" with
    | none | some .null =>
      if 200 ≤ status ∧ status ≤ 299 then .ok fields
      else .error (c.unreachable (method.name ++ " failed with HTTP " ++ toString status) none)
    | some e => .error (.remoteExecution (Report.ofJson e))
  | .ok (status, _) =>
    .error (c.unreachable
      (method.name ++ " returned a non-object reply (HTTP " ++ toString status ++ ")") none)

/-- The stack in a reply; a missing one is empty. -/
def resultStack (c : Client) (reply : List (String × Json)) : Except Fault (List Val) :=
  let stack := match reply.lookup "result_stack" with
    | some .null => none
    | x => x
  match Wire.decodeStack "result_stack" stack with
  | .ok vs => .ok vs
  | .error f => .error (c.unreachable ("malformed result stack: " ++ f.message) (some f))

/-- The text under a key, empty when there is none. -/
def textOf (fields : List (String × Json)) (key : String) : String :=
  ((fields.lookup key).bind Json.str?).getD ""

/-- The objects in the array under a key. -/
def objectsOf (fields : List (String × Json)) (key : String) : List (List (String × Json)) :=
  (((fields.lookup key).bind Json.arr?).getD []).filterMap Json.obj?

/-- A line of a listing as another runtime gives it. -/
structure RemoteSummary where
  name : String
  description : String
  wordCount : Binary64
  runtimeSpecific : Bool

/-- The modules in a reply. -/
def moduleList (reply : List (String × Json)) : List RemoteSummary :=
  (objectsOf reply "modules").map fun m =>
    { name := textOf m "name", description := textOf m "description",
      wordCount := ((m.lookup "word_count").bind Json.num?).getD 0,
      runtimeSpecific := match m.lookup "runtime_specific" with
        | some (.bool b) => b
        | _ => false }

/-- The module in a reply. -/
def moduleDoc (reply : List (String × Json)) : ModuleDoc :=
  ⟨textOf reply "name", textOf reply "description", (objectsOf reply "words").map fun w =>
    ⟨textOf w "name", textOf w "stack_effect", textOf w "description"⟩⟩

end Client

end Wordstack
