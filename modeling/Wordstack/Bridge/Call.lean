import Wordstack.Bridge.Service
import Wordstack.Json.Read

/-!
# Calls of a service

- **Calls** (`Endpoint.invoke`): the body is read, the method runs with a deadline, and the response
  is in wire form. A run that misses the deadline is reported in the response; all other faults are
  those of the call.
- **Frames** (`Endpoint.answerFrame`): a call as one text, with an identity that the reply repeats.
-/

namespace Wordstack

namespace Endpoint

/-- Runs a task of a method in time. -/
def inTime {α : Type} (p : Endpoint) (method : Method) (x : Task α) : Task (Except Fault α) := do
  match ← Task.within p.timeout x with
  | some a => return .ok a
  | none => return .error (.requestTimeout method.name p.timeout)

/-- The wire form of a response, or of a report that it came too late. -/
def stackReply (context : List (String × String)) : Except Fault StackResponse → Json
  | .ok response => Wire.writeStackResponse response
  | .error f => Wire.writeStackResponse (Runtime.failed f context)

/-- Calls a method with a body. -/
def invoke (e : Nested) (p : Endpoint) (method : Method) (body : Option Json) : Task Json := do
  match method with
  | .executeWord =>
    let request ← Task.lift (Wire.readWordRequest body)
    let response ← p.inTime method (p.runtime.executeWord e request)
    return stackReply [("word_name", request.word)] response
  | .executeSequence =>
    let request ← Task.lift (Wire.readSequenceRequest body)
    let response ← p.inTime method (p.runtime.executeSequence e request)
    return stackReply [("word_sequence", Text.join " " request.words)] response
  | .listModules => return Wire.writeListing (← Task.view fun _ s => p.runtime.listModules s)
  | .getModuleInfo =>
    let request ← Task.lift (Wire.readInfoRequest body)
    let doc ← Task.lift (← Task.view fun _ s => p.runtime.moduleInfo s request.module)
    return Wire.writeModuleDoc doc

/-- The wire form of a fault of a call. -/
def errorOf (f : Fault) (context : List (String × String)) : Json := (f.report context).toJson

/-- The fault of a call of a method that does not exist. -/
def unknownMethod (name : String) : Fault := .wireFormat ("Unknown method: " ++ name)

/-- A reply to a frame. -/
def frameReply (id : Json) (key : String) (x : Json) : Json := .obj [("id", id), (key, x)]

/-- The identity of a frame: a text or a number. -/
def frameId (fields : List (String × Json)) : Json :=
  match fields.lookup "id" with
  | some (.str s) => .str s
  | some (.num x) => .num x
  | _ => .null

/-- The reply to a frame. -/
def answerFrame (e : Nested) (p : Endpoint) (text : String) : Task Json := do
  match Json.ofText? text with
  | none => return frameReply .null "error" (errorOf (.wireFormat "Invalid JSON frame: ") [])
  | some (.obj fields) =>
    let id := frameId fields
    let name := ((fields.lookup "method").bind Json.str?).getD ""
    match Method.ofName? name with
    | none =>
      let shown := if name.isEmpty then "<missing>" else name
      return frameReply id "error" (errorOf (unknownMethod shown) [])
    | some method =>
      match ← Task.attempt (p.invoke e method ((fields.lookup "request").or (some (.obj [])))) with
      | .ok response => return frameReply id "response" response
      | .error f => return frameReply id "error" (errorOf f [("method", name)])
  | some _ => return frameReply .null "error" (errorOf (.wireFormat "Frame must be an object") [])

end Endpoint

end Wordstack
