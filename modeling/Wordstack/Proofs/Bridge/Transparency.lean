import Wordstack.Proofs.Bridge.Listing
import Wordstack.Proofs.Machine.OnStack
import Wordstack.Proofs.Wire.RoundTrip

/-!
# Remote words and the words they stand for

A word that depends on the stack only does the same behind a client as it does where it is
dispatched directly.

- **Faults** (`of_dispatch_fault`): what such a word fails with has a kind that a report can name.
- **Stacks** (`Wire.readWordRequest_sendable`): a stack of values that can be sent arrives as it was.
- **Answers** (`Runtime.Ready.respondBy_eq`): how a word is run on the stack of a request.
- **Replies** (`Client.settle_stack`, `Client.settle_failed`): what the client makes of them.
-/

namespace Wordstack

/-! ## Faults -/

theorem Fault.errorType_ne_empty {f : Fault} (h : f.isStop = true ∨ f.isEngine = true) :
    f.errorType ≠ "" := by
  cases f with
  | host kind message => simp [isStop, isEngine] at h
  | thrown text => simp [isStop, isEngine] at h
  | _ =>
    simp only [errorType, kindName?, Option.getD_some]
    decide

section Raised

variable {e : Nested} {f g : Fault} {i j : Interp} {s t : Store}

/-- Handlers decline, but they do not fail. -/
theorem tryHandlers_ne_fault {name : String} {handlers : List Handler} :
    (tryHandlers e name f handlers).finish i s ≠ .ended (.fault g) j t := by
  induction handlers generalizing i s with
  | nil => nofun
  | cons h rest ih =>
    intro hfault
    unfold tryHandlers at hfault
    rw [Task.finish_bind, Task.finish_attempt] at hfault
    obtain ⟨a, k, u, -, hend⟩ | ⟨g', k, u, -, hend⟩ :=
      Outcome.of_attempt_bind hfault Result.fault_ne_exhausted
    · cases hend
    · rw [Task.finish_bind, Task.finish_log, Outcome.bind_ok] at hend
      exact ih hend

/-- A fault of a word with code behind it is a stop on purpose or one of the engine. -/
theorem of_recover_fault {label : WordLabel} {handlers : List Handler}
    (h : (recover e label handlers f).finish i s = .ended (.fault g) j t) :
    g.isStop = true ∨ g.isEngine = true := by
  unfold recover at h
  split at h
  · rename_i hstop
    cases h
    exact .inl hstop
  · rw [Task.finish_bind, Task.finish_call] at h
    obtain ⟨handled, k, u, -, h⟩ | ⟨g', hfault, -⟩ := Outcome.of_bind h Result.fault_ne_exhausted
    · split at h
      · cases h
      · split at h
        · rename_i hengine
          cases h
          exact .inr hengine
        · cases h
          exact .inr rfl
    · exact absurd hfault tryHandlers_ne_fault

/-- What becomes of the fault of a word without handlers that was called at a place. -/
def WordLabel.wrapped (label : WordLabel) (call : Option Location) (f : Fault) : Fault :=
  if f.isStop || f.isEngine then f
  else .nativeWord label.name (label.home.getD "") f.message (some f) call

theorem WordLabel.wrapped_eq {label : WordLabel} {call : Option Location}
    (h : f.isStop = true ∨ f.isEngine = true) : label.wrapped call f = f := by
  unfold WordLabel.wrapped
  rw [if_pos (Bool.or_eq_true_iff.mpr h)]

theorem finish_recover_nil {label : WordLabel} :
    (recover e label [] f).finish i s = .ended (.fault (label.wrapped i.call f)) i s := by
  unfold recover WordLabel.wrapped
  cases hstop : f.isStop with
  | true => rfl
  | false =>
    rw [if_neg Bool.false_ne_true, Task.finish_bind, Task.finish_call]
    show Task.finish (if f.isEngine = true then _ else _) i s = _
    cases hengine : f.isEngine with
    | true => rfl
    | false => rfl

/-- A fault of the engine is not wrapped. -/
theorem finish_recover_engine {label : WordLabel} (hstop : f.isStop = false)
    (hengine : f.isEngine = true) : (recover e label [] f).finish i s = .ended (.fault f) i s := by
  rw [finish_recover_nil, WordLabel.wrapped, hstop, hengine]
  rfl

theorem of_guarded_fault {label : WordLabel} {handlers : List Handler} {x : Task Unit}
    (h : (guarded e label handlers x).finish i s = .ended (.fault g) j t) :
    g.isStop = true ∨ g.isEngine = true := by
  rw [finish_guarded] at h
  obtain ⟨a, k, u, -, h⟩ | ⟨f, k, u, -, h⟩ := Outcome.of_attempt_bind h Result.fault_ne_exhausted
  · cases h
  · rw [Task.finish_call] at h
    exact of_recover_fault h

theorem of_executeBody_fault {name : String} {call : Option Location}
    {body : List (Word × Location)}
    (h : (executeBody e name call body).finish i s = .ended (.fault g) j t) :
    g.isStop = true ∨ g.isEngine = true := by
  induction body generalizing i s with
  | nil =>
    rw [executeBody] at h
    cases h
  | cons entry rest ih =>
    obtain ⟨w, location⟩ := entry
    rw [executeBody, Task.finish_bind, Task.finish_attempt] at h
    obtain ⟨a, k, u, -, h⟩ | ⟨f, k, u, -, h⟩ := Outcome.of_attempt_bind h Result.fault_ne_exhausted
    · exact ih h
    · simp only at h
      split at h
      · rename_i hstop
        cases h
        exact .inl hstop
      · cases h
        exact .inr rfl

/-- What a word that depends on the stack only fails with is a stop on purpose or a fault of the
engine. -/
theorem of_dispatch_fault {w : Word} (hw : w.OnStack) {location : Option Location}
    (h : (dispatch e w location).finish i s = .ended (.fault g) j t) :
    g.isStop = true ∨ g.isEngine = true := by
  unfold dispatch noteDispatch at h
  rw [Task.finish_bind, Task.finish_update, Outcome.bind_ok, Task.finish_call] at h
  cases w with
  | constant label v =>
    rw [execute] at h
    cases h
  | definition label body =>
    rw [execute, Task.finish_bind, Task.finish_view, Outcome.bind_ok] at h
    exact of_executeBody_fault h
  | native label inputs hasOptions waits code handlers =>
    rw [execute] at h
    exact of_guarded_fault h
  | direct label waits code handlers =>
    rw [execute] at h
    exact of_guarded_fault h
  | _ => exact absurd hw (by rw [Word.OnStack]; exact id)

end Raised

/-! ## Stacks -/

/-- A value that is after the wire what it was before: it can be sent, is one that literals and
decoding make, and has no negative zero in it. -/
structure Val.Sendable (v : Val) : Prop where
  serializable : v.isSerializable = true
  wellFormed : v.WellFormed
  unsigned : v.unsigned = v

theorem Val.Sendable.str (s : String) : (Val.str s).Sendable := ⟨rfl, by simp only [WellFormed], rfl⟩

theorem Val.Sendable.int (n : Int) : (Val.int n).Sendable := ⟨rfl, by simp only [WellFormed], rfl⟩

theorem Val.unsignedItems_of_sendable {vs : List Val} (h : ∀ v ∈ vs, v.Sendable) :
    unsignedItems vs = vs := by
  induction vs with
  | nil => rfl
  | cons v vs ih =>
    obtain ⟨hv, hvs⟩ := List.forall_mem_cons.mp h
    rw [unsignedItems, hv.unsigned, ih hvs]

namespace Wire

/-- A stack that can be sent has a wire form, which arrives as the stack and as the same form. -/
theorem exists_encodeStack {vs : List Val} (h : ∀ v ∈ vs, v.Sendable) :
    ∃ xs, encodeStack vs = .ok xs ∧ decodeStack "stack" (some (.arr xs)) = .ok vs ∧
      normalStack (some (.arr (Json.sentItems xs))) = .ok xs := by
  have hserializable := (areSerializable_iff vs).mpr fun v hv => (h v hv).serializable
  obtain ⟨xs, hxs, hback⟩ := decodeItems_encodeStack hserializable
    ((itemsWellFormed_iff vs).mpr fun v hv => (h v hv).wellFormed)
  refine ⟨xs, hxs, hback "stack" 0, ?_⟩
  have harrives : decodeStack "stack" (some (.arr (Json.sentItems xs))) = .ok vs := by
    show decodeItems "stack" 0 (Json.sentItems xs) = _
    rw [decodeItems_sent, hback, Except.map, Val.unsignedItems_of_sendable h]
  unfold normalStack
  rw [harrives]
  exact hxs

end Wire

/-! ## Answers -/

namespace Runtime

/-- The response to a request to run a word, once it was run or has failed. -/
def concludeWord (word : String) : Except Fault (List Json) → Task StackResponse
  | .ok stack => return ⟨stack, none⟩
  | .error f => do
    Task.log .debug logScope ("ExecuteWord " ++ word ++ " failed: " ++ f.errorType)
    return failed f [("word_name", word)]

variable {r : Runtime} {s : Store} {word : String} {xs : List Json} {vs : List Val}

/-- A request with a stack that can be decoded is answered by the task on that stack, in a new
interpreter. -/
theorem Ready.respondBy_eq (h : r.Ready s) (word : String)
    (hdecode : Wire.decodeStack "stack" (some (.arr xs)) = .ok vs) :
    ∃ i t, i.stack = .ofList vs ∧ i.pending = [] ∧ ∀ (x : Task Unit) (k : Interp),
      r.respondBy ⟨word, xs⟩ x k s =
        ((((x i t).later.restoring k).bind fun p =>
          Task.lift (Wire.encodeStack p.2.stack.toList)).attempt).bind (concludeWord word) := by
  let message := "ExecuteWord " ++ word ++ " (stack depth " ++ toString xs.length ++ ")"
  obtain ⟨i, hfresh, hseeded⟩ :=
    (h.of_modules_eq (modules_log s .debug logScope message).1).seeded xs
  refine ⟨{ i with stack := .ofList vs }, (s.log .debug logScope message).withApp r.imports, rfl,
    hfresh.pending, fun x k => ?_⟩
  have hconclude : (fun o => match o with
      | .ok stack => pure ⟨stack, none⟩
      | .error f => do
        Task.log .debug logScope ("ExecuteWord " ++ word ++ " failed: " ++ f.errorType)
        return failed f [("word_name", word)] :
          Except Fault (List Json) → Task StackResponse) = concludeWord word := by
    funext o
    cases o <;> rfl
  have hstep := hseeded k
  rw [hdecode] at hstep
  show Step.bind (Step.attempt (Step.bind (r.seeded xs k (s.log .debug logScope message)) _)) _ = _
  rw [hstep]
  exact congrArg _ hconclude

/-- How a request with a stack that can be decoded ends, if the task on that stack ends in its own
time: with the stack that the task leaves, or with its fault. -/
theorem Ready.finish_respondBy (h : r.Ready s) (word : String)
    (hdecode : Wire.decodeStack "stack" (some (.arr xs)) = .ok vs) :
    ∃ i t, i.stack = .ofList vs ∧ i.pending = [] ∧ ∀ (x : Task Unit) (k : Interp), (x i t).Untimed →
      (r.respondBy ⟨word, xs⟩ x k s).Untimed ∧
      (∀ j u ys, x.finish i t = .ended (.ok ()) j u → Wire.encodeStack j.stack.toList = .ok ys →
        (r.respondBy ⟨word, xs⟩ x).finish k s = .ended (.ok ⟨ys, none⟩) k u) ∧
      ∀ f j u, x.finish i t = .ended (.fault f) j u →
        ∃ v, (r.respondBy ⟨word, xs⟩ x).finish k s =
          .ended (.ok (failed f [("word_name", word)])) k v := by
  obtain ⟨i, t, hstack, hpending, heq⟩ := h.respondBy_eq word hdecode
  refine ⟨i, t, hstack, hpending, fun x k hx => ?_⟩
  have hfinish : (r.respondBy ⟨word, xs⟩ x).finish k s =
      ((((x i t).later.restoring k).finish.bind fun p j u =>
        (Task.lift (Wire.encodeStack p.2.stack.toList)).finish j u).attempt).bind fun o j u =>
          (concludeWord word o).finish j u := by
    unfold Task.finish
    rw [heq, Step.finish_bind, Step.finish_attempt, Step.finish_bind]
    rfl
  rw [Step.finish_restoring, Step.finish_later] at hfinish
  refine ⟨?_, fun j u ys hj hys => ?_, fun f j u hj => ?_⟩
  · rw [heq]
    refine Step.Untimed.bind (Step.Untimed.attempt ((hx.later.restoring k).bind fun p j u _ => ?_))
      fun o j u _ => ?_
    · cases Wire.encodeStack p.2.stack.toList with
      | ok ys => exact .done _ _ _
      | error f => exact .done _ _ _
    · cases o with
      | ok ys => exact .done _ _ _
      | error f => exact .done _ _ _
  · rw [hfinish, show (x i t).finish = .ended (.ok ()) j u from hj]
    simp only [Outcome.bind_ok, hys, Task.finish_lift_ok, Outcome.attempt_ok]
    rfl
  · refine ⟨u.log .debug logScope ("ExecuteWord " ++ word ++ " failed: " ++ f.errorType), ?_⟩
    rw [hfinish, show (x i t).finish = .ended (.fault f) j u from hj]
    rfl

end Runtime

/-- A task that ends in its own time ends before the deadline of the endpoint. -/
theorem Endpoint.finish_inTime {α : Type} {p : Endpoint} {method : Method} {x : Task α} {a : α}
    {i j : Interp} {s t : Store} (h : (x i s).Untimed) (hx : x.finish i s = .ended (.ok a) j t) :
    (p.inTime method x).finish i s = .ended (.ok (.ok a)) j t := by
  unfold inTime
  rw [Task.finish_bind, Task.finish_within_of_untimed h hx]
  rfl

section Replies

variable {p : Endpoint} {c : Client} {client : Nat} {k : Interp} {s : Store} {word : String}
  {vs : List Val}

/-- How the service answers a request to run a word on a stack that can be sent. -/
theorem Endpoint.finish_answerBy {xs : List Json} {response : StackResponse} {t : Store}
    {x : Task Unit} (hword : word.isEmpty = false)
    (harrives : Wire.normalStack (some (.arr (Json.sentItems xs))) = .ok xs)
    (huntimed : (p.runtime.respondBy ⟨word, xs⟩ x k s).Untimed)
    (hfinish : (p.runtime.respondBy ⟨word, xs⟩ x).finish k s = .ended (.ok response) k t) :
    (p.answerBy (Wire.writeWordRequest word xs).sent x).finish k s =
      .ended (.ok (stackReply [("word_name", word)] (.ok response))) k t := by
  unfold answerBy
  rw [Task.finish_bind, Wire.readWordRequest_sent, hword, if_neg Bool.false_ne_true, harrives,
    Except.map, Task.finish_lift_ok, Outcome.bind_ok, Task.finish_bind,
    Endpoint.finish_inTime huntimed hfinish, Outcome.bind_ok, Task.finish_pure]

/-! ## Replies -/

/-- A reply with a stack is the stack. -/
theorem Client.settle_stack (c : Client) (context : List (String × String)) (ys : List Json) :
    c.settle .executeWord (.ok (((200 : Nat) : Int),
        (Endpoint.stackReply context (.ok ⟨ys, none⟩)).sent)) =
      .ok [("result_stack", .arr (Json.sentItems ys))] := by
  have hsent : (Endpoint.stackReply context (.ok ⟨ys, none⟩)).sent =
      .obj [("result_stack", .arr (Json.sentItems ys))] := rfl
  have hnone : [("result_stack", Json.arr (Json.sentItems ys))].lookup "error" = none := rfl
  rw [hsent]
  unfold settle
  simp only [hnone]
  rw [if_pos (by decide)]

/-- A reply with a report is a failure in the other runtime. -/
theorem Client.settle_failed (c : Client) (context : List (String × String)) (ys : List Json)
    (report : Report) :
    c.settle .executeWord (.ok (((200 : Nat) : Int),
        (Endpoint.stackReply context (.ok ⟨ys, some report⟩)).sent)) =
      .error (.remoteExecution (.ofJson report.toJson.sent)) := by
  have hsent : (Endpoint.stackReply context (.ok ⟨ys, some report⟩)).sent =
      .obj [("result_stack", .arr (Json.sentItems ys)), ("error", report.toJson.sent)] := rfl
  have hsome : [("result_stack", Json.arr (Json.sentItems ys)), ("error", report.toJson.sent)].lookup
      "error" = some report.toJson.sent := rfl
  have hobject : ∃ fields, report.toJson.sent = .obj fields := ⟨_, rfl⟩
  rw [hsent]
  unfold settle
  simp only [hsome]
  obtain ⟨fields, hfields⟩ := hobject
  rw [hfields]

/-- The kind of a failure arrives, if it has a name. -/
theorem Report.errorType_sent {report : Report} (h : report.errorType ≠ "") :
    (ofJson report.toJson.sent).errorType = report.errorType := by
  have hfield : report.toJson.sent.field? "error_type" = some (.str report.errorType) := rfl
  unfold ofJson textField?
  simp only [hfield]
  rw [if_neg (by simpa using h)]
  rfl

/-- A stack of values that can be sent comes out of a reply, but for the signs of zeros. -/
theorem Client.finish_receive_stack {context : List (String × String)} {ys : List Json}
    (hys : Wire.encodeStack vs = .ok ys)
    (hvs : ∀ v ∈ vs, v.isSerializable = true ∧ v.WellFormed) :
    ∃ ws, (c.receive client (.ok (Endpoint.stackReply context (.ok ⟨ys, none⟩)))).finish k s =
        .ended (.ok ws) k s ∧ Val.equalItems vs ws = true := by
  have hserializable := (Wire.areSerializable_iff vs).mpr fun v hv => (hvs v hv).1
  obtain ⟨ys', hys', hback⟩ := Wire.decodeItems_encodeStack hserializable
    ((Wire.itemsWellFormed_iff vs).mpr fun v hv => (hvs v hv).2)
  obtain rfl : ys = ys' := Except.ok.inj (hys.symm.trans hys')
  obtain ⟨ws, hws, hequal, -⟩ := Wire.decodeItems_of_sent_eq hserializable (hback "result_stack" 0)
    (Json.sentItems_sentItems ys)
  refine ⟨ws, ?_, hequal⟩
  have hdecoded : Wire.decodeStack "result_stack" (some (.arr (Json.sentItems ys))) = .ok ws := hws
  have hresult : ∀ c : Client, c.resultStack [("result_stack", .arr (Json.sentItems ys))] = .ok ws :=
    fun c => by
      unfold resultStack
      simp only [List.lookup_cons_self, hdecoded]
  unfold receive Http.replyOf remoteStack
  rw [Task.finish_bind, Client.settle_stack, Task.finish_lift_ok, Outcome.bind_ok, Task.finish_bind,
    Task.finish_view, Outcome.bind_ok, hresult, Task.finish_lift_ok]

/-- A report comes out of a reply as a failure in the other runtime. -/
theorem Client.finish_receive_failed {context : List (String × String)} {ys : List Json}
    {report : Report} :
    (c.receive client (.ok (Endpoint.stackReply context (.ok ⟨ys, some report⟩)))).finish k s =
      .ended (.fault (.remoteExecution (.ofJson report.toJson.sent))) k s := by
  unfold receive Http.replyOf
  rw [Task.finish_bind, Client.settle_failed, Task.finish_lift_error, Outcome.bind_fault]

/-- What a call of a task on a stack that can be sent comes to. -/
theorem Client.exists_callBy (c : Client) (client : Nat) (k : Interp) (hr : p.runtime.Ready s)
    (hword : word ≠ "")
    (hvs : ∀ v ∈ vs, v.Sendable) {x : Task Unit}
    (hx : ∀ i t, i.pending = [] → (x i t).Untimed) :
    ∃ i t, i.stack = .ofList vs ∧ i.pending = [] ∧
      (∀ j u, x.finish i t = .ended (.ok ()) j u →
        (∀ v ∈ j.stack.toList, v.isSerializable = true ∧ v.WellFormed) →
        ∃ ws v, (c.callBy client p word vs x).finish k s = .ended (.ok ws) k v ∧
          Val.equalItems j.stack.toList ws = true) ∧
      ∀ f j u, x.finish i t = .ended (.fault f) j u → f.errorType ≠ "" →
        ∃ report v, (c.callBy client p word vs x).finish k s =
            .ended (.fault (.remoteExecution report)) k v ∧ report.errorType = f.errorType := by
  obtain ⟨xs, hxs, hdecode, harrives⟩ := Wire.exists_encodeStack hvs
  have hready : p.runtime.Ready (s.noteSent c .executeWord (Wire.writeWordRequest word xs)) :=
    hr.of_modules_eq rfl
  obtain ⟨i, t, hstack, hpending, hrespond⟩ := hready.finish_respondBy word hdecode
  obtain ⟨huntimed, hok, hfault⟩ := hrespond x k (hx i t hpending)
  have hword : word.isEmpty = false := by simpa using hword
  refine ⟨i, t, hstack, hpending, fun j u hj hvalues => ?_, fun f j u hj hkind => ?_⟩
  · have hserializable := (Wire.areSerializable_iff _).mpr fun v hv => (hvalues v hv).1
    obtain ⟨ys, hys, -⟩ := Wire.decodeItems_encodeStack hserializable
      ((Wire.itemsWellFormed_iff _).mpr fun v hv => (hvalues v hv).2)
    have hreceived : ∃ ws, (c.receive client
        (.ok (Endpoint.stackReply [("word_name", word)] (.ok ⟨ys, none⟩)))).finish k u =
          .ended (.ok ws) k u ∧ Val.equalItems _ ws = true := Client.finish_receive_stack hys hvalues
    obtain ⟨ws, hws, hequal⟩ := hreceived
    refine ⟨ws, u, ?_, hequal⟩
    rw [Client.finish_callBy hxs, Endpoint.finish_answerBy hword harrives huntimed (hok j u ys hj hys)]
    exact hws
  · obtain ⟨v, hv⟩ := hfault f j u hj
    refine ⟨.ofJson (f.report [("word_name", word)]).toJson.sent, v, ?_, Report.errorType_sent hkind⟩
    rw [Client.finish_callBy hxs, Endpoint.finish_answerBy hword harrives huntimed hv]
    exact Client.finish_receive_failed

end Replies

/-! ## Words -/

section Found

variable {e : Nested} {i : Interp} {s : Store} {w : Word}

theorem initializePending_idle (h : i.pending = []) :
    initializePending e i s = .done (.ok ()) i s := by
  show drainPending e i.pending.length i s = _
  rw [h]
  rfl

theorem executeFound_untimed (h : i.pending = []) (hw : w.OnStack) :
    (executeFound e w i s).Untimed := by
  have hinit : (initializePending e i s).later.Untimed := by
    rw [initializePending_idle h]
    exact (Step.Untimed.done _ _ _).later
  exact hinit.bind fun _ j t _ => ((Task.Meets.dispatch e e hw none none).left j t).later

theorem finish_executeFound (h : i.pending = []) :
    (executeFound e w).finish i s = (dispatch e w none).finish i s := by
  have hinit : (initializePending e).finish i s = .ended (.ok ()) i s := by
    unfold Task.finish
    rw [initializePending_idle h]
    rfl
  unfold executeFound
  rw [Task.finish_bind, Task.finish_call, hinit, Outcome.bind_ok, Task.finish_call]

end Found

theorem List.findSome?_of_only {α β : Type} {f : α → Option β} {xs : List α} {x : α} {b : β}
    (hx : x ∈ xs) (hf : f x = some b) (honly : ∀ y ∈ xs, y ≠ x → f y = none) :
    xs.findSome? f = some b := by
  induction xs with
  | nil => cases hx
  | cons y ys ih =>
    obtain ⟨hy, hys⟩ := List.forall_mem_cons.mp honly
    by_cases hyx : y = x
    · rw [List.findSome?_cons, hyx, hf]
    · have hmem : x ∈ ys := (List.mem_cons.mp hx).resolve_left fun h => hyx h.symm
      rw [List.findSome?_cons, hy hyx]
      exact ih hmem hys

/-- A name that only one registered module exports, and that is no literal, stands for the word that
this module exports under it. -/
theorem Runtime.resolved?_of_only {r : Runtime} {s : Store} {home name : String} {m : Nat} {w : Word}
    (hm : r.registry.get? home = some m) (hw : exportedWord? s.modules [] m name = some w)
    (honly : ∀ k ∈ r.registry.modules, (s.module k).isExported name = true → k = m)
    (hliteral : r.literal? s name = none) : r.resolved? s name = some w := by
  unfold resolved? word?
  rw [hliteral]
  refine List.findSome?_of_only (List.mem_reverse.mpr (mem_imports hm)) hw fun k hk hne => ?_
  refine exportedWord?_eq_none (.inr fun x hx => ?_)
  by_contra he
  refine hne (honly k (mem_modules_of_mem_imports (List.mem_reverse.mp hk)) ?_)
  rw [Store.module, hx]
  simpa using he

/-- No module was taken away, and those that were ready still are. -/
structure Store.Later (s t : Store) : Prop where
  size : s.modules.size ≤ t.modules.size
  ready : ∀ m, (s.module m).isReady = true → (t.module m).isReady = true

/-- Executing a remote word is transparent. The runtime was made from any modules, and anything may
have happened since. One of its modules exports a word under its own name, which is no literal and
which no other of them exports, and the code of the word depends on the stack only. The remote word
of that name is executed on a stack of values that can be sent; the word itself is dispatched on the
same stack, in any interpreter.

If the dispatch leaves values that can be sent, the remote word leaves equal ones. If the dispatch
fails, the remote word fails with what the other runtime reports: the kind of the failure is the
same, and the stack is as it was. -/
theorem remote_word_is_transparent {depth : Nat} {modules : List Nat} {zone : Option String}
    {maxAttempts : Option Binary64} {i₀ j₀ : Interp} {s₀ t₀ : Store} {r : Runtime}
    (hmodules : ∀ m ∈ modules, m < s₀.modules.size)
    (hstart : (Runtime.start (nested depth) modules zone maxAttempts).finish i₀ s₀ =
      .ended (.ok r) j₀ t₀)
    {s : Store} (hlater : t₀.Later s) {home : String} {m : Nat} {w : Word}
    (hm : r.registry.get? home = some m) (hw : exportedWord? s.modules [] m w.name = some w)
    (honly : ∀ k ∈ r.registry.modules, (s.module k).isExported w.name = true → k = m)
    (hliteral : r.literal? s w.name = none) (hname : w.name ≠ "") (hcode : w.OnStack)
    {p : Endpoint} {c : Client} {client : Nat} (hp : p.runtime = r) (hc : s.Connects client c p)
    {label : WordLabel} (hlabel : label.name = w.name) (n : Nat) (runtime module : String)
    {vs : List Val} (hvs : ∀ v ∈ vs, v.Sendable) {i k : Interp} (hi : i.stack = .ofList vs)
    (hk : k.stack = .ofList vs) (e : Nested) (location : Option Location) (t : Store) :
    let remote :=
      (execute (nested (n + 1)) (.remote label client runtime module)).finish i s
    let direct := (dispatch e w location).finish k t
    (∀ k' t', direct = .ended (.ok ()) k' t' →
      (∀ v ∈ k'.stack.toList, v.isSerializable = true ∧ v.WellFormed) →
        ∃ i' s', remote = .ended (.ok ()) i' s' ∧
          Val.equalItems k'.stack.toList i'.stack.toList = true) ∧
    ∀ f k' t', direct = .ended (.fault f) k' t' →
      ∃ report i' s', remote = .ended (.fault (.remoteExecution report)) i' s' ∧
        report.errorType = f.errorType ∧ i'.stack = i.stack := by
  intro remote direct
  subst hp
  have hready : p.runtime.Ready s :=
    (Runtime.ready_of_started hmodules hstart).mono hlater.size fun m _ => hlater.ready m
  have hresolved : p.runtime.resolved? s label.name = some w :=
    hlabel ▸ Runtime.resolved?_of_only hm hw honly hliteral
  have hlabelled : label.name ≠ "" := hlabel ▸ hname
  obtain ⟨j, u, hstack, hpending, hok, hfault⟩ := Client.exists_callBy c client i hready hlabelled hvs
    (x := executeFound (nested n) w) fun j u hj => executeFound_untimed hj hcode
  rw [finish_executeFound hpending] at hok hfault
  -- the same word on the same stack, here and there
  have hmeets := (Task.Meets.dispatch e (nested n) hcode location none).finish t u
    (hk.trans hstack.symm)
  have hremote : remote = (guarded (nested (n + 1)) label [] do
      Task.setStack (← c.callBy client p label.name (← Task.stack)
        (executeFound (nested n) w))).finish i s := finish_execute_remote hc hready hresolved
  have hvalues : Task.stack.finish i s = .ended (.ok vs) i s := by
    show Outcome.ended (.ok i.stack.toList) i s = _
    rw [hi, OperandStack.toList_ofList]
  rw [finish_guarded, Task.finish_bind, hvalues, Outcome.bind_ok, Task.finish_bind] at hremote
  refine ⟨fun k' t' hdirect hleft => ?_, fun f k' t' hdirect => ?_⟩
  · rw [show (dispatch e w location).finish k t = _ from hdirect] at hmeets
    obtain ⟨⟨⟩, j', u', hend, -, hsame⟩ := hmeets.of_ok
    obtain ⟨ws, v, hws, hequal⟩ := hok j' u' hend (hsame ▸ hleft)
    refine ⟨{ i with stack := .ofList ws }, v, ?_, ?_⟩
    · rw [hremote, hws]
      rfl
    · rw [OperandStack.toList_ofList, ← hsame]
      exact hequal
  · rw [show (dispatch e w location).finish k t = _ from hdirect] at hmeets
    obtain ⟨g, j', u', hend, hblur, -⟩ := hmeets.of_fault
    obtain ⟨report, v, hv, hkind⟩ := hfault g j' u' hend
      (Fault.errorType_ne_empty (of_dispatch_fault hcode hend))
    refine ⟨report, i, v, ?_, hkind.trans (Fault.errorType_eq_of_blur hblur).symm, rfl⟩
    rw [hremote, hv, Outcome.bind_fault, Outcome.attempt_fault, Outcome.bind_ok, Task.finish_call]
    exact finish_recover_engine rfl rfl

/-! ## A word that makes points in time -/

/-- Makes a point in time of a text, whatever the text says. -/
def Word.makingInstants : Word :=
  .native { name := "AT" } 1 false false (fun args _ =>
    match args with
    | [.str iso] => .done (some (.instant iso))
    | _ => .fail (.typeError "expected a text")) []

theorem Word.makingInstants_onStack : makingInstants.OnStack := by
  rw [makingInstants, OnStack]
  refine ⟨fun args options e e' => ?_, fun _ h => absurd h List.not_mem_nil⟩
  split
  · exact .pure rfl
  · exact .throw rfl

/-- A module that exports a word. -/
def Module.offering (w : Word) : Module := { name := "m", words := [w], exports := [w.name] }

/-- A module that makes points in time, and a client of the runtime that serves it. -/
def Store.makingInstants : Store :=
  { Store.emptyCore [.offering .makingInstants] with
    clients := #[{ address := "h", timeout := 0 }]
    endpoints :=
      [{ address := "http://h", runtime := .frozenOver [(coreName, 0), ("m", 1)], timeout := 0 }] }

/-- The runtime of the module. -/
def Runtime.startMakingInstants : Task Runtime :=
  start (nested 2) [0, 1] (some "+00:00") none

/-- An interpreter with values on its stack. -/
def Interp.holding (vs : List Val) : Interp := { Interp.host with stack := .ofList vs }

/-- The label of the remote word. -/
def atLabel : WordLabel := { name := "AT" }

theorem atLabel_name : atLabel.name = Word.makingInstants.name := rfl

/-- The remote word on a stack. -/
def Store.callAt (s : Store) (vs : List Val) : Outcome Unit :=
  (execute (nested 1) (.remote atLabel 0 "far" "m")).finish (.holding vs) s

/-- What the word and the remote word need to meet holds of the runtime. -/
theorem Store.exists_makingInstants : ∃ r j t p c,
    Runtime.startMakingInstants.finish .host .makingInstants = .ended (.ok r) j t ∧
    t = (Runtime.startMakingInstants.settle .host .makingInstants).2.2 ∧
    r.registry.get? "m" = some 1 ∧
    exportedWord? t.modules [] 1 "AT" = some .makingInstants ∧
    (∀ k ∈ r.registry.modules, (t.module k).isExported "AT" = true → k = 1) ∧
    r.literal? t "AT" = none ∧ p.runtime = r ∧ t.Connects 0 c p := by
  let entries := [(coreName, 0), ("m", 1)]
  let r := Runtime.frozenOver entries
  have hstart : ((Runtime.startMakingInstants.settle .host .makingInstants).1.toOption.any
      (Runtime.isFrozenOver entries)) = true := by decide +kernel
  have hstore : let t := (Runtime.startMakingInstants.settle .host .makingInstants).2.2
      2 ≤ t.modules.size ∧ (t.module 0).isExported "AT" = false ∧
        (r.literal? t "AT").isNone = true ∧
        t.clients[0]?.any (fun c => !c.closed && (t.endpoints.find? fun q =>
          q.address == c.baseUrl).any fun p => p.runtime.isFrozenOver entries) = true := by
    decide +kernel
  obtain ⟨r', hr, hfrozen⟩ := Except.exists_of_any hstart
  obtain rfl : r' = r := Runtime.eq_frozenOver hfrozen
  obtain ⟨hsize, hcore, hliteral, hclient⟩ := hstore
  obtain ⟨c, hc, hclient⟩ := (Option.any_eq_true _ _).mp hclient
  obtain ⟨hopen, hendpoint⟩ := Bool.and_eq_true_iff.mp hclient
  obtain ⟨p, hp, hruntime⟩ := (Option.any_eq_true _ _).mp hendpoint
  have hended := Task.of_settle hr
  refine ⟨r, _, _, p, c, hended, rfl, rfl, ?_, fun k hk he => ?_, Option.isNone_iff_eq_none.mp hliteral,
    Runtime.eq_frozenOver hruntime, hc, by simpa using hopen, hp⟩
  · -- the module is ready, so that starting has left it alone
    have hmodule := Runtime.module_of_start (m := 1) (by decide) rfl (fun k c hc => by
      obtain _ | _ | k := k <;> exact absurd hc List.not_mem_nil) hended
    have hx : (Runtime.startMakingInstants.settle .host .makingInstants).2.2.modules[1]? =
        some (Module.offering .makingInstants) := by
      rw [Store.module, Array.getElem?_eq_getElem (by omega), Option.getD_some] at hmodule
      rw [Array.getElem?_eq_getElem (by omega), hmodule]
      rfl
    rw [exportedWord?_of_exported hx List.not_mem_nil rfl]
    rfl
  · obtain rfl | rfl := (List.mem_cons.mp hk).imp_right List.mem_singleton.mp
    · rw [hcore] at he
      cases he
    · rfl

/-- What the word leaves when it is dispatched on a text. -/
def dispatchAt (iso : String) : Outcome Unit :=
  (dispatch (nested 0) .makingInstants none).finish (.holding [.str iso]) {}

theorem exists_dispatchAt (iso : String) :
    ∃ k t, dispatchAt iso = .ended (.ok ()) k t ∧ k.stack.toList = [.instant iso] := ⟨_, _, rfl, rfl⟩

/-- What goes through the wire is what the word would have done here: it makes a point in time of a
text, and fails on a number. -/
theorem remote_word_is_transparent_instant : ∃ r j t,
    Runtime.startMakingInstants.finish .host .makingInstants = .ended (.ok r) j t ∧
    (∃ i' s', t.callAt [.str "2024-01-02T03:04:05Z"] = .ended (.ok ()) i' s' ∧
      Val.equalItems [.instant "2024-01-02T03:04:05Z"] i'.stack.toList = true) ∧
    ∃ report i' s', t.callAt [.int 1] = .ended (.fault (.remoteExecution report)) i' s' ∧
      report.errorType = "NativeWordError" := by
  obtain ⟨r, j, t, p, c, hstart, -, hm, hw, honly, hliteral, hp, hc⟩ := Store.exists_makingInstants
  have hall := fun vs (hvs : ∀ v ∈ vs, v.Sendable) =>
    remote_word_is_transparent (w := .makingInstants) (by decide) hstart
      ⟨Nat.le_refl _, fun _ h => h⟩ hm hw honly hliteral (by decide) Word.makingInstants_onStack hp
      hc atLabel_name 0 "far" "m" hvs (i := .holding vs) rfl (k := .holding vs) rfl (nested 0) none {}
  have hwell : (Calendar.readTimestamp "2024-01-02T03:04:05Z").isSome = true := by decide +kernel
  refine ⟨r, j, t, hstart, ?_, ?_⟩
  · obtain ⟨k, u, hk, hstack⟩ := exists_dispatchAt "2024-01-02T03:04:05Z"
    obtain ⟨i', s', hremote, hequal⟩ := (hall _ (List.forall_mem_singleton.mpr (.str _))).1 k u hk
      fun v hv => by
        rw [hstack, List.mem_singleton] at hv
        subst hv
        exact ⟨rfl, by rwa [Val.WellFormed]⟩
    exact ⟨i', s', hremote, hstack ▸ hequal⟩
  · have hdirect : ∃ f k u, (dispatch (nested 0) .makingInstants none).finish (.holding [.int 1]) {} =
        .ended (.fault f) k u ∧ f.errorType = "NativeWordError" := ⟨_, _, _, rfl, rfl⟩
    obtain ⟨f, k, u, hf, hkind⟩ := hdirect
    obtain ⟨report, i', s', hremote, hsame, -⟩ := 
      (hall _ (List.forall_mem_singleton.mpr (.int 1))).2 f k u hf
    exact ⟨report, i', s', hremote, hsame.trans hkind⟩

/-- A word may leave what is sent but not accepted back: a point in time that is none. -/
theorem remote_word_may_refuse_result :
    ¬ ∀ {depth : Nat} {modules : List Nat} {zone : Option String}
      {maxAttempts : Option Binary64} {i₀ j₀ : Interp} {s₀ t₀ : Store} {r : Runtime},
      (∀ m ∈ modules, m < s₀.modules.size) →
      (Runtime.start (nested depth) modules zone maxAttempts).finish i₀ s₀ = .ended (.ok r) j₀ t₀ →
      ∀ {home : String} {m : Nat} {w : Word}, r.registry.get? home = some m →
      exportedWord? t₀.modules [] m w.name = some w →
      (∀ k ∈ r.registry.modules, (t₀.module k).isExported w.name = true → k = m) →
      r.literal? t₀ w.name = none → w.name ≠ "" → w.OnStack →
      ∀ {p : Endpoint} {c : Client} {client : Nat}, p.runtime = r → t₀.Connects client c p →
      ∀ {label : WordLabel}, label.name = w.name →
      ∀ (n : Nat) (runtime module : String) {vs : List Val},
      (∀ v ∈ vs, v.Sendable) → ∀ {i k : Interp}, i.stack = .ofList vs → k.stack = .ofList vs →
      ∀ (e : Nested) (location : Option Location) (t : Store) (k' : Interp) (t' : Store),
      (dispatch e w location).finish k t = .ended (.ok ()) k' t' →
      (∀ v ∈ k'.stack.toList, v.isSerializable = true) →
      ∃ i' s', (execute (nested (n + 1)) (.remote label client runtime module)).finish i t₀ =
          .ended (.ok ()) i' s' ∧ Val.equalItems k'.stack.toList i'.stack.toList = true := by
  intro hall
  have hrefused : (((Runtime.startMakingInstants.settle .host .makingInstants).2.2.callAt
      [.str "x"]).isFault fun _ _ => true) = true := by decide +kernel
  obtain ⟨r, j, t, p, c, hstart, rfl, hm, hw, honly, hliteral, hp, hc⟩ := Store.exists_makingInstants
  obtain ⟨f, i', s', hfault, -⟩ := Outcome.exists_of_isFault hrefused
  obtain ⟨k, u, hk, hstack⟩ := exists_dispatchAt "x"
  obtain ⟨i', s', hok, -⟩ := hall (w := .makingInstants) (by decide) hstart hm hw honly hliteral
    (by decide) Word.makingInstants_onStack hp hc atLabel_name 0 "far" "m"
    (List.forall_mem_singleton.mpr (.str "x")) (i := .holding [.str "x"]) rfl
    (k := .holding [.str "x"]) rfl (nested 0) none {} k u hk fun v hv => by
      rw [hstack, List.mem_singleton] at hv
      subst hv
      rfl
  have hsame := hok.symm.trans hfault
  cases hsame

end Wordstack
