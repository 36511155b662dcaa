import Wordstack.Proofs.Runs.NativeWords
import Wordstack.Proofs.Wire.Grammar

/-!
# What a remote word leaves

A remote word sends the whole stack, and what comes back either takes its place or leaves it alone.

- **Deliveries** (`Delivery.Reports`, `Delivery.Brings`): what a transport may bring back that is a
  reply of the protocol.
- **Receipts** (`Delivery.Yields`, `Client.yields_received`): what a client makes of a delivery. One
  that is no reply of the protocol is a failure to reach the runtime.
- **Stacks that cannot be sent** (`Wire.exists_unsendable`): encoding says so before the client is
  asked for anything.
- **Outcomes** (`remote_word_replaces_or_keeps_stack`): for every stack and every delivery.
-/

namespace Wordstack

/-! ## Deliveries -/

/-- No error is in the fields of a reply. -/
def Client.HasNoError (reply : List (String × Json)) : Prop :=
  reply.lookup "error" = none ∨ reply.lookup "error" = some .null

/-- What the stack in the fields of a reply decodes to. One that is missing or null is empty. -/
def Client.decodedStack (reply : List (String × Json)) : Except Fault (List Val) :=
  match reply.lookup "result_stack" with
  | none | some .null => .ok []
  | some x => Wire.decodeStack "result_stack" (some x)

/-- A delivery is an object with an error in it, which says this. -/
def Delivery.Reports (d : Delivery) (report : Report) : Prop :=
  ∃ status fields x, d = .ok (status, .obj fields) ∧ fields.lookup "error" = some x ∧ x ≠ .null ∧
    report = .ofJson x

/-- A delivery is an object with a status of success and without an error, and its stack decodes to
this one. -/
def Delivery.Brings (d : Delivery) (ws : List Val) : Prop :=
  ∃ status fields, d = .ok (status, .obj fields) ∧ 200 ≤ status ∧ status ≤ 299 ∧
    Client.HasNoError fields ∧ Client.decodedStack fields = .ok ws

/-- What a client makes of a delivery: the stack that it brings, the failure that it reports, or a
failure to reach the runtime. -/
inductive Delivery.Yields (d : Delivery) : Except Fault (List Val) → Prop
  | stack {ws : List Val} (h : Delivery.Brings d ws) : Yields d (.ok ws)
  | reported {report : Report} (h : Delivery.Reports d report) :
      Yields d (.error (.remoteExecution report))
  | unreachable {address note : String} {cause : Option Fault}
      (hbrings : ∀ ws, ¬ Delivery.Brings d ws) (hreports : ∀ report, ¬ Delivery.Reports d report) :
      Yields d (.error (.remoteRuntime address note cause))

theorem Delivery.Reports.unique {d : Delivery} {report report' : Report}
    (h : Delivery.Reports d report) (h' : Delivery.Reports d report') : report = report' := by
  obtain ⟨status, fields, x, rfl, hx, -, rfl⟩ := h
  obtain ⟨status', fields', x', hd, hx', -, rfl⟩ := h'
  cases hd
  rw [hx] at hx'
  cases hx'
  rfl

theorem Delivery.Brings.unique {d : Delivery} {ws ws' : List Val} (h : Delivery.Brings d ws)
    (h' : Delivery.Brings d ws') : ws = ws' := by
  obtain ⟨status, fields, rfl, -, -, -, hws⟩ := h
  obtain ⟨status', fields', hd, -, -, -, hws'⟩ := h'
  cases hd
  rw [hws] at hws'
  cases hws'
  rfl

namespace Client

variable {c : Client} {method : Method} {fields : List (String × Json)} {status : Int}

/-- A reply has no error in it, or one that is not null. -/
theorem hasNoError_or_error (fields : List (String × Json)) :
    HasNoError fields ∨ ∃ x, fields.lookup "error" = some x ∧ x ≠ .null := by
  cases herror : fields.lookup "error" with
  | none => exact .inl (.inl herror)
  | some x =>
    by_cases hx : x = .null
    · subst hx
      exact .inl (.inr herror)
    · exact .inr ⟨x, rfl, hx⟩

theorem not_reports_of_hasNoError (h : HasNoError fields) (report : Report) :
    ¬ Delivery.Reports (.ok (status, .obj fields)) report := by
  rintro ⟨status', fields', x, hd, hx, hnull, -⟩
  cases hd
  obtain h | h := h
  · simp [h] at hx
  · simp [h] at hx
    exact hnull hx.symm

theorem not_reports_of_brings {d : Delivery} {ws : List Val} (h : Delivery.Brings d ws)
    (report : Report) : ¬ Delivery.Reports d report := by
  obtain ⟨status, fields, rfl, -, -, hnone, -⟩ := h
  exact not_reports_of_hasNoError hnone report

/-- What is no object is a failure to reach the runtime. -/
theorem settle_of_not_object {d : Delivery} (h : ∀ status fields, d ≠ .ok (status, .obj fields)) :
    ∃ note cause, c.settle method d = .error (c.unreachable note cause) := by
  unfold settle
  split
  · exact ⟨_, _, rfl⟩
  · exact ⟨_, _, rfl⟩
  · exact absurd rfl (h _ _)
  · exact ⟨_, _, rfl⟩

theorem settle_error {x : Json} (hx : fields.lookup "error" = some x) (hnull : x ≠ .null) :
    c.settle method (.ok (status, .obj fields)) = .error (.remoteExecution (.ofJson x)) := by
  unfold settle
  cases x with
  | null => exact absurd rfl hnull
  | _ => simp only [hx]

theorem settle_object (h : HasNoError fields) :
    c.settle method (.ok (status, .obj fields)) =
      if 200 ≤ status ∧ status ≤ 299 then .ok fields
      else .error
        (c.unreachable (method.name ++ " failed with HTTP " ++ toString status) none) := by
  unfold settle
  obtain h | h := h <;> simp only [h]

theorem resultStack_eq :
    c.resultStack fields = match decodedStack fields with
      | .ok vs => .ok vs
      | .error f => .error (c.unreachable ("malformed result stack: " ++ f.message) (some f)) := by
  unfold resultStack decodedStack
  cases fields.lookup "result_stack" with
  | none => rfl
  | some x => cases x <;> rfl

/-- A client makes of a delivery what it should; `c'` is the client as it is once the reply is
there. -/
theorem yields_received (c c' : Client) (method : Method) (d : Delivery) :
    Delivery.Yields d ((c.settle method d).bind c'.resultStack) := by
  by_cases hobject : ∃ status fields, d = .ok (status, .obj fields)
  · obtain ⟨status, fields, rfl⟩ := hobject
    obtain hnone | ⟨x, hx, hnull⟩ := hasNoError_or_error fields
    · rw [settle_object hnone]
      have hreports : ∀ report, ¬ Delivery.Reports (.ok (status, .obj fields)) report :=
        not_reports_of_hasNoError hnone
      by_cases hstatus : 200 ≤ status ∧ status ≤ 299
      · rw [if_pos hstatus]
        show Delivery.Yields _ (c'.resultStack fields)
        rw [resultStack_eq]
        cases hstack : decodedStack fields with
        | ok ws => exact .stack ⟨status, fields, rfl, hstatus.1, hstatus.2, hnone, hstack⟩
        | error f =>
          refine .unreachable (fun ws hbrings => ?_) hreports
          obtain ⟨status', fields', hd, -, -, -, hws⟩ := hbrings
          cases hd
          rw [hstack] at hws
          cases hws
      · rw [if_neg hstatus]
        refine .unreachable (fun ws hbrings => ?_) hreports
        obtain ⟨status', fields', hd, hlow, hhigh, -⟩ := hbrings
        cases hd
        exact hstatus ⟨hlow, hhigh⟩
    · rw [settle_error hx hnull]
      exact .reported ⟨status, fields, x, rfl, hx, hnull, rfl⟩
  · have hnot : ∀ status fields, d ≠ .ok (status, .obj fields) :=
      fun status fields hd => hobject ⟨status, fields, hd⟩
    obtain ⟨note, cause, hsettle⟩ :
        ∃ note cause, c.settle method d = .error (c.unreachable note cause) :=
      settle_of_not_object hnot
    rw [hsettle]
    refine .unreachable (fun ws hbrings => ?_) fun report hreports => ?_
    · obtain ⟨status, fields, hd, -⟩ := hbrings
      exact hnot status fields hd
    · obtain ⟨status, fields, x, hd, -⟩ := hreports
      exact hnot status fields hd

end Client

/-! ## Stacks that cannot be sent -/

namespace Wire

mutual
/-- Encoding accepts what can be sent, and all that it says otherwise is a fault of the wire
form. -/
theorem judges_encode (v : Val) : Judges (v.isSerializable = true) (encode v) := by
  match v with
  | .int _ | .float _ | .bool _ | .str _ | .null | .instant _ | .plainDate _ | .zoned _ _ =>
    exact .ok rfl
  | .array items =>
    refine ((judges_encodeStack items).bind (Q := True) fun xs _ => .ok trivial).congr ?_
    rw [Val.isSerializable, and_true]
  | .record fields =>
    refine ((judges_encodeFields fields).bind (Q := True) fun xs _ => .ok trivial).congr ?_
    rw [Val.isSerializable, and_true]
  | .wordRef _ | .moduleRef _ | .variableRef _ | .options _ _ =>
    exact .error Bool.false_ne_true

theorem judges_encodeStack (vs : List Val) :
    Judges (Val.areSerializable vs = true) (encodeStack vs) := by
  match vs with
  | [] => exact .ok rfl
  | v :: vs =>
    refine ((judges_encode v).bind (Q := Val.areSerializable vs = true) fun x _ =>
      ((judges_encodeStack vs).bind (Q := True) fun xs _ => .ok trivial).congr ?_).congr ?_
    · rw [and_true]
    · rw [Val.areSerializable, Bool.and_eq_true]

theorem judges_encodeFields (fields : List (String × Val)) :
    Judges (Val.fieldsSerializable fields = true) (encodeFields fields) := by
  match fields with
  | [] => exact .ok rfl
  | (k, v) :: fields =>
    refine ((judges_encode v).bind (Q := Val.fieldsSerializable fields = true) fun x _ =>
      ((judges_encodeFields fields).bind (Q := True) fun xs _ => .ok trivial).congr ?_).congr ?_
    · rw [and_true]
    · rw [Val.fieldsSerializable, Bool.and_eq_true]
end

end Wire

/-! ## Outcomes -/

section Outcomes

variable {e : Nested} {label : WordLabel} {client : Nat} {c : Client} {runtime module : String}
  {i : Interp} {s t : Store}

/-- A remote word that fails with a fault of the engine before it has the new stack leaves the
interpreter alone. -/
theorem finish_remote_fault {f : Fault} (hstop : f.isStop = false) (hengine : f.isEngine = true)
    (h : (executeRemote e client label.name i.stack.toList).finish i s = .ended (.fault f) i t) :
    (execute e (.remote label client runtime module)).finish i s = .ended (.fault f) i t := by
  rw [execute]
  refine finish_guarded_engine hstop hengine ?_
  rw [Task.finish_bind, show Task.stack.finish i s = .ended (.ok i.stack.toList) i s from rfl,
    Outcome.bind_ok, Task.finish_bind, h, Outcome.bind_fault]

theorem finish_remote_ok {ws : List Val}
    (h : (executeRemote e client label.name i.stack.toList).finish i s = .ended (.ok ws) i t) :
    (execute e (.remote label client runtime module)).finish i s =
      .ended (.ok ()) { i with stack := .ofList ws } t := by
  rw [execute, finish_guarded, Task.finish_bind,
    show Task.stack.finish i s = .ended (.ok i.stack.toList) i s from rfl, Outcome.bind_ok,
    Task.finish_bind, h, Outcome.bind_ok]
  rfl

theorem finish_callRemote_closed {method : Method} {request : Json}
    (hc : s.clients[client]? = some c) (hclosed : c.closed = true) :
    (callRemote e client method request).finish i s = .ended (.fault c.closedFault) i s := by
  unfold callRemote
  rw [Task.finish_bind, Task.finish_view, Outcome.bind_ok, hc, Option.getD_some, if_pos hclosed]
  rfl

/-- Running a word through an open client comes to what the client makes of the delivery. -/
theorem finish_executeRemote_delivered {word : String} {vs : List Val} {xs : List Json}
    {d : Delivery} (hc : s.clients[client]? = some c) (hopen : c.closed = false)
    (hxs : Wire.encodeStack vs = .ok xs)
    (hsend : (e.send c.baseUrl .executeWord (Wire.writeWordRequest word xs)).finish i s =
      .ended (.ok d) i t) :
    ∃ c' : Client, (executeRemote e client word vs).finish i s =
      (Task.lift ((c.settle .executeWord d).bind c'.resultStack)).finish i t := by
  refine ⟨t.clients[client]?.getD { address := "", timeout := 0 }, ?_⟩
  have hcall : (callRemote e client .executeWord (Wire.writeWordRequest word xs)).finish i s =
      (Task.lift (c.settle .executeWord d)).finish i t := by
    unfold callRemote
    rw [Task.finish_bind, Task.finish_view, Outcome.bind_ok, hc, Option.getD_some, hopen,
      if_neg Bool.false_ne_true, Task.finish_bind, hsend, Outcome.bind_ok]
  unfold executeRemote
  rw [Task.finish_bind, hxs, Task.finish_lift_ok, Outcome.bind_ok, Task.finish_bind, hcall]
  cases c.settle .executeWord d with
  | error f => rfl
  | ok fields => rfl

/-- A remote word without handlers replaces the stack or leaves it. Where it fails the whole
interpreter is as it was.

- A stack that cannot be sent is a fault of the wire form, whatever the transport is.
- A closed client is a failure to reach the runtime, whatever the transport is.
- Otherwise the request goes out, and the delivery decides: the stack it brings takes the place of
  the old one, the failure it reports is reported, and anything else is a failure to reach the
  runtime. -/
theorem remote_word_replaces_or_keeps_stack (hc : s.clients[client]? = some c) :
    (Val.areSerializable i.stack.toList = false → ∃ note, ∀ e,
      (execute e (.remote label client runtime module)).finish i s =
        .ended (.fault (.wireFormat note)) i s) ∧
    (Val.areSerializable i.stack.toList = true → c.closed = true → ∃ address note cause, ∀ e,
      (execute e (.remote label client runtime module)).finish i s =
        .ended (.fault (.remoteRuntime address note cause)) i s) ∧
    (Val.areSerializable i.stack.toList = true → c.closed = false →
      ∃ xs, Wire.encodeStack i.stack.toList = .ok xs ∧ ∀ e d t,
        (e.send c.baseUrl .executeWord (Wire.writeWordRequest label.name xs)).finish i s =
          .ended (.ok d) i t →
        (∃ ws, Delivery.Brings d ws ∧ (∀ report, ¬ Delivery.Reports d report) ∧
          (execute e (.remote label client runtime module)).finish i s =
            .ended (.ok ()) { i with stack := .ofList ws } t) ∨
        (∀ ws, ¬ Delivery.Brings d ws) ∧
          ∃ f, (execute e (.remote label client runtime module)).finish i s =
              .ended (.fault f) i t ∧
            (∀ report, f = .remoteExecution report ↔ Delivery.Reports d report) ∧
            ((∀ report, ¬ Delivery.Reports d report) →
              ∃ address note cause, f = .remoteRuntime address note cause)) := by
  refine ⟨fun hunsendable => ?_, fun hsendable hclosed => ?_, fun hsendable hopen => ?_⟩
  · obtain ⟨note, hnote⟩ :=
      (Wire.judges_encodeStack i.stack.toList).exists_note (by simp [hunsendable])
    refine ⟨note, fun e => finish_remote_fault rfl rfl ?_⟩
    rw [executeRemote, hnote, Task.finish_bind, Task.finish_lift_error, Outcome.bind_fault]
  · obtain ⟨xs, hxs⟩ := Wire.exists_encodeItems hsendable
    refine ⟨c.address, "client is closed", none, fun e => finish_remote_fault rfl rfl ?_⟩
    rw [executeRemote, hxs, Task.finish_bind, Task.finish_lift_ok, Outcome.bind_ok,
      Task.finish_bind, finish_callRemote_closed hc hclosed, Outcome.bind_fault]
    rfl
  · obtain ⟨xs, hxs⟩ := Wire.exists_encodeItems hsendable
    refine ⟨xs, hxs, fun e d t hsend => ?_⟩
    obtain ⟨c', hfinish⟩ := finish_executeRemote_delivered hc hopen hxs hsend
    have hyields := Client.yields_received c c' .executeWord d
    generalize (c.settle .executeWord d).bind c'.resultStack = received at hfinish hyields
    cases hyields with
    | stack hbrings =>
      exact .inl ⟨_, hbrings, Client.not_reports_of_brings hbrings, finish_remote_ok hfinish⟩
    | reported hreports =>
      refine .inr ⟨fun _ hbrings => Client.not_reports_of_brings hbrings _ hreports, _,
        finish_remote_fault rfl rfl hfinish, fun report => ?_,
        fun hnone => absurd hreports (hnone _)⟩
      constructor
      · intro heq
        cases heq
        exact hreports
      · intro hreports'
        rw [hreports.unique hreports']
    | unreachable hbrings hreports =>
      refine .inr ⟨hbrings, _, finish_remote_fault rfl rfl hfinish, fun report => ?_,
        fun _ => ⟨_, _, _, rfl⟩⟩
      constructor
      · intro heq
        cases heq
      · intro hreports'
        exact absurd hreports' (hreports report)

end Outcomes

/-- A transport that brings back the same for every request. -/
def Nested.bringing (d : Delivery) : Nested := { nested 0 with send := fun _ _ _ => return d }

/-- A store with one client. -/
def Store.withClient (c : Client) : Store := { clients := #[c] }

/-- A client that calls are made through. -/
def Client.atFar : Client := { address := "far", timeout := 0 }

/-- A reply with one value. -/
def Json.fiveReply : Json := .obj [("result_stack", .arr [.obj [("int_value", .str "5")]])]

theorem Delivery.brings_five : Delivery.Brings (.ok (200, .fiveReply)) [.int 5] :=
  ⟨200, _, rfl, by decide, by decide, .inl rfl, rfl⟩

/-- The word, behind a transport that brings back this. -/
def executeAtFar (d : Delivery) (vs : List Val) : Outcome Unit :=
  (execute (.bringing d) (.remote atLabel 0 "far" "m")).finish (.holding vs) (.withClient .atFar)

theorem remote_word_replaces_or_keeps_stack_five :
    (Store.withClient .atFar).clients[0]? = some .atFar ∧
    executeAtFar (.ok (200, .fiveReply)) [.int 1] =
      .ended (.ok ()) (.holding [.int 5]) (.withClient .atFar) ∧
    (∃ address note cause, executeAtFar (.ok (500, .fiveReply)) [.int 1] =
      .ended (.fault (.remoteRuntime address note cause)) (.holding [.int 1])
        (.withClient .atFar)) ∧
    ∃ note, executeAtFar (.ok (200, .fiveReply)) [.options 0 []] =
      .ended (.fault (.wireFormat note)) (.holding [.options 0 []]) (.withClient .atFar) := by
  have hc : (Store.withClient .atFar).clients[0]? = some .atFar := rfl
  have hall := fun vs =>
    @remote_word_replaces_or_keeps_stack atLabel 0 .atFar "far" "m" (.holding vs) _ hc
  obtain ⟨xs, -, hone⟩ := (hall [.int 1]).2.2 rfl rfl
  refine ⟨hc, ?_, ?_, ?_⟩
  · obtain ⟨ws, hbrings, -, hfinish⟩ | ⟨hbrings, -⟩ :=
      hone (.bringing (.ok (200, .fiveReply))) (.ok (200, .fiveReply)) (.withClient .atFar) rfl
    · rw [hbrings.unique Delivery.brings_five] at hfinish
      exact hfinish
    · exact absurd Delivery.brings_five (hbrings _)
  · obtain ⟨ws, hbrings, -⟩ | ⟨-, f, hfinish, -, hunreachable⟩ :=
      hone (.bringing (.ok (500, .fiveReply))) (.ok (500, .fiveReply)) (.withClient .atFar) rfl
    · obtain ⟨status, fields, hd, -, hhigh, -⟩ := hbrings
      cases hd
      exact absurd hhigh (by decide)
    · obtain ⟨address, note, cause, rfl⟩ :=
        hunreachable (Client.not_reports_of_hasNoError (.inl rfl))
      exact ⟨address, note, cause, hfinish⟩
  · obtain ⟨note, hnote⟩ := (hall [.options 0 []]).1 rfl
    exact ⟨note, hnote _⟩

end Wordstack
