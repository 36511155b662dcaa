import Wordstack.Bridge.Http

/-!
# Runtimes that call each other

- **Sending** (`Network.send`): a request reaches the endpoint whose address is the URL, and waits
  for its answer.
- **Nesting** (`nested`): runs inside words and requests to other runtimes, up to a depth. Work that
  is nested deeper ends the whole computation.
-/

namespace Wordstack

namespace Network

/-- What comes back from the endpoint under a URL. -/
def send (e : Nested) (url : String) (method : Method) (body : Json) : Task Delivery := do
  Task.updateStore fun s =>
    { s with sent := ⟨url ++ "/rpc/" ++ method.name, body.sent⟩ :: s.sent }
  match (← Task.view fun _ s => s.endpoints).find? fun p => p.address == url with
  | none => return .error (.typeError "fetch failed")
  | some p =>
    let (status, x) ← Http.answerCall e p method.name body.sent
    return .ok (status, x)

end Network

/-- Runs and requests that are nested at most `depth` deep. -/
def nested : Nat → Nested
  | 0 => ⟨fun _ _ => Task.exhausted, fun _ _ _ => Task.exhausted⟩
  | depth + 1 =>
    ⟨fun source origin => runSource (nested depth) source origin,
     fun url method body => Network.send (nested depth) url method body⟩

/-- How deep runs may be nested. -/
def maxDepth : Nat := 20000

/-- Nesting up to the greatest depth. -/
def machine : Nested := nested maxDepth

end Wordstack
