import Wordstack.Proofs.Machine.Requests
import Wordstack.Proofs.Machine.Territory
import Wordstack.Proofs.Modules.RecordedCode

/-!
# Calls with a record

- **New interpreters** (`Interp.Attends`): one that serves a request finds ready modules only.
- **Requests** (`Site.send`): they are answered in the same way without and with a record of what is
  done meanwhile.
- **Nesting** (`nested_recorded`): the recording machine does what the machine does, whatever the
  depth.
- **Calls** (`CallsMade.recorded`): the calls of a program end as they do without a record, and what
  they leave in it is right.
-/

namespace Wordstack

variable {ready : Nat → Prop} {busy : List Nat} {record : List SentRequest} {s t : Store}
  {i j : Interp} {m : Nat}

/-! ## New interpreters -/

namespace Interp

/-- What making an interpreter leaves: one that finds ready modules only, and a record that is right
still. -/
structure Attends (ready : Nat → Prop) (busy : List Nat) (record : List SentRequest)
    (is : Interp × Store) : Prop where
  settled : is.1.bearings.Settled ready
  logged : Logged ready busy is.2 record

theorem Attends.importAtCreation (h : Attends ready busy record (i, s)) (hm : ready m) :
    Attends ready busy record (importAtCreation (i, s) m) := by
  refine ⟨?_, h.logged.step (.updateModule i.app (f := fun app => app.addImport ⟨m, ""⟩)
    fun _ => rfl)⟩
  unfold Interp.importAtCreation
  simp only
  split
  · exact h.settled
  · refine ⟨h.settled.registry, h.settled.registered, fun n hn => ?_⟩
    rcases List.mem_append.mp hn with hn | hn
    · exact h.settled.pending n hn
    · exact List.mem_singleton.mp hn ▸ hm

theorem Attends.attach (h : Attends ready busy record (i, s)) (hm : ready m) :
    Attends ready busy record (attach (i, s) m) :=
  Attends.importAtCreation (i := i.register s m)
    ⟨⟨h.settled.registry, Json.forall_setField h.settled.registered hm, h.settled.pending⟩,
      h.logged⟩ hm

theorem Attends.attachAll (h : Attends ready busy record (i, s)) {ms : List Nat}
    (hms : ∀ m ∈ ms, ready m) : Attends ready busy record (ms.foldl Interp.attach (i, s)) := by
  induction ms generalizing i s with
  | nil => exact h
  | cons m ms ih =>
    obtain ⟨hm, hrest⟩ := List.forall_mem_cons.mp hms
    exact ih (h.attach hm) hrest

/-- A module that is declared without a source is ready. -/
theorem logged_define (hs : Logged ready busy s record) {spec : ModuleSpec}
    (hsource : spec.source.isEmpty = true) (hd : s.define spec = .ok (m, t)) :
    ready m ∧ Logged ready busy t record := by
  obtain ⟨x, hb, rfl, rfl⟩ := Store.of_define hd
  obtain ⟨hready, -⟩ := ModuleSpec.build_new hb
  have hidentity : Store.Unrecorded fun s => { s with nextId := s.nextId + x.words.length } :=
    .aside (fun _ _ => rfl) (fun _ => rfl) fun _ => rfl
  have hadd := (Store.Unrecorded.addModule (hready.trans hsource)).comp hidentity
  exact ⟨hs.new _ (Nat.le_refl _), hs.step hadd⟩

theorem attends_of_bare {settings : Settings} (hs : Logged ready busy s record)
    (hr : ∀ e ∈ settings.registry.entries, ready e.2)
    (h : bare s settings true = .ok (i, t)) : Attends ready busy record (i, t) := by
  obtain ⟨-, rfl, rfl⟩ := of_bare h
  have hpool : Store.Unrecorded fun s => s.addPool.2 :=
    .aside (fun _ _ => rfl) (fun _ => rfl) fun _ => rfl
  exact ⟨⟨hr, nofun, nofun⟩, hs.step (hpool.comp (.addModule (x := { name := "" }) rfl))⟩

theorem Attends.withCore (h : Attends ready busy record (i, s)) {is : Interp × Store}
    (hc : i.withCore s = .ok is) : Attends ready busy record is := by
  obtain ⟨m, hm, rfl⟩ | ⟨-, m, u, hd, rfl⟩ := of_withCore hc
  · exact h.importAtCreation (h.settled.registry _ (mem_of_lookup hm))
  · obtain ⟨hm, hu⟩ := logged_define h.logged rfl hd
    exact attach ⟨h.settled, hu⟩ hm

theorem attends_of_standard {settings : Settings} {ms : List Nat} (hs : Logged ready busy s record)
    (hr : ∀ e ∈ settings.registry.entries, ready e.2) (hms : ∀ m ∈ ms, ready m)
    (h : standard s settings ms = .ok (i, t)) : Attends ready busy record (i, t) := by
  obtain ⟨i₀, s₀, i₁, s₁, hbare, hcore, hi⟩ := of_standard h
  exact hi ▸ ((attends_of_bare hs hr hbare).withCore hcore).attachAll hms

end Interp

/-! ## Requests -/

/-- What is watched of the interpreter that sends a request, while another one serves it. -/
def Watch.around (busy : List Nat) (interp : Interp.Bearings → Prop) : Watch := ⟨busy, interp, True⟩

section Requests

open Task.Recorded

variable {e e' : Nested} {H : Interp.Bearings → Prop} {r : Runtime}

/-- A runtime serves modules only that are ready from the start. -/
def Runtime.Serves (r : Runtime) (ready : Nat → Prop) : Prop := ∀ e ∈ r.registry.entries, ready e.2

theorem recorded_seeded (hr : r.Serves ready) (stack : List Json) :
    (r.seeded stack).Recorded ready (.around busy H) (fun i => i.bearings.Settled ready)
      (r.seeded stack) := by
  unfold Runtime.seeded
  refine .bind (P := fun i => i.bearings.Settled ready)
    (ofStore? (fun s l => Interp.standard_revised s id (fun _ => l) ..) fun hs h => ?_) fun i hi => ?_
  · have hms : ∀ m ∈ r.registry.entries.filterMap fun e =>
        if e.1 = coreName then none else some e.2, ready m := by
      intro m hm
      obtain ⟨e, he, hm⟩ := List.mem_filterMap.mp hm
      split at hm
      · cases hm
      · exact Option.some.inj hm ▸ hr e he
    unfold Runtime.interpreter at h
    have hmade := Interp.attends_of_standard hs (fun e he => hr e he) hms h
    exact ⟨hmade.settled, hmade.logged⟩
  · exact .bind (P := fun _ => True) (.lift fun _ _ => ⟨⟩) fun vs _ => .pure hi

/-- What is done on an interpreter that serves a request. -/
theorem recorded_onOther {α : Type} {x y : Task α} (h : Site.away.Tasks ready busy x y)
    (hi : i.bearings.Settled ready) :
    (Task.onOther i x).Recorded ready (.around busy H) (fun _ => True) (Task.onOther i y) := by
  have hother : (Task.onOther i x).Recorded ready (.around busy H)
      (fun r => True ∧ r.2.bearings.Settled ready) (Task.onOther i y) :=
    Task.Recorded.onOther h rfl (fun _ => ⟨⟩) hi
  exact hother.mono fun _ _ => ⟨⟩

theorem recorded_serveWord (he : Nested.Recorded ready e e') (hr : r.Serves ready)
    (request : WordRequest) :
    (r.executeWord e request).Recorded ready (.around busy H) (fun _ => True)
      (r.executeWord e' request) := by
  unfold Runtime.executeWord
  refine (log _ _ _).bind fun _ _ => .bind (P := fun _ => True) ((Task.Recorded.attempt
    (P := fun _ => True) ?_).mono fun _ _ => ⟨⟩) fun outcome _ => ?_
  · refine (recorded_seeded hr request.stack).bind fun i hi => ?_
    refine (recorded_onOther (Site.executeWord he request.word).call hi).bind fun p _ => ?_
    exact .lift fun _ _ => ⟨⟩
  · cases outcome with
    | ok stack => exact .pure ⟨⟩
    | error f => exact (log _ _ _).bind fun _ _ => .pure ⟨⟩

theorem recorded_runWords (he : Nested.Recorded ready e e') (n : Nat) (words : List String) :
    Site.away.Tasks ready busy (Runtime.runWords e n words) (Runtime.runWords e' n words) := by
  induction words generalizing n with
  | nil => exact .pure ⟨⟩
  | cons word rest ih =>
    unfold Runtime.runWords
    refine (Site.executeWord he word).call.attempt.bind fun outcome _ => ?_
    cases outcome with
    | ok => exact ih (n + 1)
    | error f => exact .pure ⟨⟩

theorem recorded_serveSequence (he : Nested.Recorded ready e e') (hr : r.Serves ready)
    (request : SequenceRequest) :
    (r.executeSequence e request).Recorded ready (.around busy H) (fun _ => True)
      (r.executeSequence e' request) := by
  unfold Runtime.executeSequence
  refine (log _ _ _).bind fun _ _ => ?_
  refine (recorded_seeded hr request.stack).attempt.bind fun outcome hi => ?_
  cases outcome with
  | error f => exact .pure ⟨⟩
  | ok i =>
    refine (recorded_onOther (recorded_runWords he 0 request.words) (hi i rfl)).bind fun p _ => ?_
    obtain ⟨failure, j⟩ := p
    cases failure with
    | some w => exact .pure ⟨⟩
    | none =>
      dsimp only
      split
      · exact .pure ⟨⟩
      · exact .pure ⟨⟩

theorem recorded_inTime {α : Type} (p : Endpoint) (method : Method) {x y : Task α}
    (h : x.Recorded ready (.around busy H) (fun _ => True) y) :
    (p.inTime method x).Recorded ready (.around busy H) (fun _ => True) (p.inTime method y) := by
  unfold Endpoint.inTime
  refine (Task.Recorded.within h ⟨⟩ p.timeout).bind fun o _ => ?_
  cases o with
  | some a => exact .pure ⟨⟩
  | none => exact .pure ⟨⟩

theorem recorded_invoke (he : Nested.Recorded ready e e') {p : Endpoint}
    (hp : p.runtime.Serves ready) (method : Method) (body : Option Json) :
    (p.invoke e method body).Recorded ready (.around busy H) (fun _ => True)
      (p.invoke e' method body) := by
  unfold Endpoint.invoke
  cases method with
  | executeWord =>
    refine .bind (P := fun _ => True) (.lift fun _ _ => ⟨⟩) fun request _ => ?_
    exact (recorded_inTime p _ (recorded_serveWord he hp request)).bind fun _ _ => .pure ⟨⟩
  | executeSequence =>
    refine .bind (P := fun _ => True) (.lift fun _ _ => ⟨⟩) fun request _ => ?_
    exact (recorded_inTime p _ (recorded_serveSequence he hp request)).bind fun _ _ => .pure ⟨⟩
  | listModules => exact (look fun _ _ _ => rfl).bind fun _ _ => .pure ⟨⟩
  | getModuleInfo =>
    refine .bind (P := fun _ => True) (.lift fun _ _ => ⟨⟩) fun request _ => ?_
    refine (look fun _ _ _ => rfl).bind fun found _ => ?_
    exact .bind (P := fun _ => True) (.lift fun _ _ => ⟨⟩) fun _ _ => .pure ⟨⟩

theorem recorded_answerCall (he : Nested.Recorded ready e e') {p : Endpoint}
    (hp : p.runtime.Serves ready) (name : String) (body : Json) :
    (Http.answerCall e p name body).Recorded ready (.around busy H) (fun _ => True)
      (Http.answerCall e' p name body) := by
  unfold Http.answerCall
  split
  · exact .pure ⟨⟩
  · refine (recorded_invoke he hp _ _).attempt.bind fun outcome _ => ?_
    cases outcome with
    | ok x => exact .pure ⟨⟩
    | error f => exact .pure ⟨⟩

end Requests

namespace Site

open Task.Recorded

variable {site : Site} {e e' : Nested}

/-- What is asked of the sender's interpreter is what is watched of it. -/
theorem of_around {α : Type} {x y : Task α}
    (h : x.Recorded ready (.around busy (site.watch ready busy).interp) (fun _ => True) y) :
    site.Tasks ready busy x y := by
  refine ⟨fun hi hs => ?_⟩
  rw [watch_busy] at hs
  exact (h.steps hi hs).mono watch_busy (fun _ hb => hb) (fun _ => ⟨⟩) fun _ _ => ⟨⟩

/-- A request that is sent is no note. -/
theorem noteRequest (url method : String) (body : Json) :
    site.Tasks ready busy
      (Task.updateStore fun s => { s with sent := ⟨url ++ "/rpc/" ++ method, body⟩ :: s.sent })
      (Task.updateStore fun s =>
        { s with sent := ⟨url ++ "/rpc/" ++ method, body⟩ :: s.sent }) := by
  refine ⟨fun {i s record} hi hs => ?_⟩
  let request : SentRequest := ⟨url ++ "/rpc/" ++ method, body⟩
  have hevents : eventsOf (request :: record) = eventsOf record := eventsOf_sent url method body _
  have hsent : Logged ready (site.watch ready busy).busy (s.resent (request :: s.sent))
      (request :: record) :=
    ⟨hs.served, hs.new, by rw [hevents]; exact hs.orderly,
      fun m => by rw [hevents]; exact hs.ready m⟩
  exact .ok ⟨⟩ hi hsent

/-- A request is served by a runtime whose modules are ready, or reaches nobody. -/
theorem send (he : Nested.Recorded ready e e') (url : String) (method : Method) (body : Json) :
    site.Tasks ready busy (Network.send e url method body) (Network.send e' url method body) := by
  unfold Network.send
  refine (noteRequest url method.name body.sent).bind fun _ _ => ?_
  refine Task.Recorded.bind (P := fun endpoints => ∀ p ∈ endpoints, p.runtime.Serves ready)
    (view (fun _ _ _ => rfl) fun _ hs => hs.served) fun endpoints hserved => ?_
  split
  · exact pure _
  · rename_i p hp
    have hserves := hserved p (List.mem_of_find?_eq_some hp)
    exact (of_around (recorded_answerCall he hserves method.name body.sent)).bind fun _ _ => pure _

end Site

/-! ## Nesting -/

/-- The run of a module's source between its notes. -/
theorem Step.Recorded.ranSource {x y : Step Unit}
    (h : x.Recorded ready (Site.home.watch ready (m :: busy)) (fun _ => True) y) :
    x.RanSource ready busy m (y.attempt.bind (Task.noteEnd m)) := by
  induction h with
  | ok _ hi hs => exact .completed hi hs.complete
  | fault hi hs => exact .failed hi hs.fail
  | exhausted => exact .exhausted
  | pause _ _ ih => exact .pause ih

/-- The recording machine does what the machine does. -/
theorem nested_recorded (depth : Nat) : Nested.Recorded ready (nested depth) (recorded depth) := by
  induction depth with
  | zero =>
    exact ⟨fun _ _ _ => .exhausted, fun _ _ _ _ _ _ _ _ => .exhausted, fun _ _ _ => .exhausted⟩
  | succ depth ih =>
    refine ⟨fun source origin h => ?_, fun source origin h hi hm hbusy hready hs => ?_,
      fun url method body => Site.send ih url method body⟩
    · unfold recorded
      rw [Nested.recording_run_of_none h]
      exact Site.runSource ih source origin
    · unfold recorded
      rw [Nested.recording_run_apply h hm]
      have hrun := Task.Recorded.steps (W := Site.home.watch ready (_ :: _))
        (Site.runSource ih source origin) hi (hs.begin hbusy hready)
      exact hrun.ranSource

/-! ## Calls -/

/-- The calls that a program makes, the latest first, and what each of them ends with. -/
inductive CallsMade (e : Nested) (i : Interp) (s : Store) :
    List (Call × Result Unit) → Interp → Store → Prop
  | start : CallsMade e i s [] i s
  | call {made : List (Call × Result Unit)} {j k : Interp} {t u : Store} {r : Result Unit}
      (c : Call) (h : CallsMade e i s made j t) (hc : (c.task e).finish j t = .ended r k u)
      (hr : r ≠ .exhausted) : CallsMade e i s ((c, r) :: made) k u

/-- Whatever calls a program makes, the recording machine ends them in the same way. No module is
being initialized between them, and the record is right. -/
theorem CallsMade.recorded {depth : Nat} {made : List (Call × Result Unit)}
    (h : CallsMade (nested depth) i s made j t) (hi : i.initializing = [])
    (hs : Logged ready [] s record) :
    ∃ after, CallsMade (Wordstack.recorded depth) i (s.resent record) made j (t.resent after) ∧
      j.initializing = [] ∧ Logged ready [] t after := by
  induction h with
  | start => exact ⟨record, .start, hi, hs⟩
  | call c hmade hc hr ih =>
    obtain ⟨middle, hbefore, hj, ht⟩ := ih
    have he : Nested.Recorded ready (nested depth) (Wordstack.recorded depth) :=
      nested_recorded depth
    obtain ⟨after, hend, hk, hu⟩ := ((c.recorded he).steps hj ht).finish hc hr
    exact ⟨after, .call c hbefore hend hr, hk, hu⟩

end Wordstack
