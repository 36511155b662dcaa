import Wordstack.Bridge.Call
import Wordstack.Proofs.Bridge.Sequences
import Wordstack.Proofs.Wire.Grammar

/-!
# Every frame has one answer

- **Deadlines** (`Step.of_finish_within`): a task with a deadline ends as it does alone, or misses
  it.
- **Responses** (`Runtime.RunsTo`): the stack that the words of a request leave, or the fault of the
  first of them that fails. It is in the response in either case
  (`Runtime.response_of_executeWord`, `Runtime.response_of_executeSequence`).
- **Frames** (`Frame.HasId`, `Frame.Asks`): the identity of a frame and what it asks for.
- **The result** (`every_frame_gets_one_answer`): there is a reply with the identity of the frame,
  and either a response or an error in it. A frame that asks for nothing in the grammar of requests
  is refused, and nothing is executed.
-/

namespace Wordstack

/-! ## Deadlines -/

section Deadlines

variable {α : Type} {i j : Interp} {s t : Store} {ms : Binary64}

/-- With a deadline a step ends as it does without, unless it misses the deadline. -/
theorem Step.of_finish_within {x : Step α} {r : Result (Option α)}
    (h : (x.within ms i).finish = .ended r j t) :
    (∃ a, r = .ok (some a) ∧ x.finish = .ended (.ok a) j t) ∨ r = .ok none ∨
      (∃ f, r = .fault f ∧ x.finish = .ended (.fault f) j t) ∨ r = .exhausted := by
  induction x with
  | done r' k u =>
    cases r' with
    | ok a =>
      cases h
      exact .inl ⟨a, rfl, rfl⟩
    | fault f =>
      cases h
      exact .inr (.inr (.inl ⟨f, rfl, rfl⟩))
    | exhausted =>
      cases h
      exact .inr (.inr (.inr rfl))
  | pause w u resume ih =>
    simp only [Step.within, Step.finish] at h ⊢
    -- the reason is that of the step, so both are woken at the same time
    have hready : Wait.isReady ⟨w.reason, some (Step.earlier ms w.deadline)⟩ true u =
        w.isReady true u := rfl
    rw [hready] at h
    by_cases hw : w.isReady true u = true
    · rw [if_pos hw] at h ⊢
      rw [if_neg (by simp)] at h
      exact ih _ _ h
    · rw [if_neg hw] at h ⊢
      simp only [Option.isSome_some, if_true, true_and] at h
      by_cases hfirst : Step.isFirst ms w.deadline = true
      · rw [if_pos hfirst] at h
        cases h
        exact .inr (.inl rfl)
      · rw [if_neg hfirst] at h
        have hdeadline : w.deadline.isSome = true := by
          cases hd : w.deadline with
          | some ms' => rfl
          | none =>
            rw [hd] at hfirst
            exact absurd rfl hfirst
        rw [if_pos hdeadline]
        exact ih _ _ h

theorem Task.of_finish_within {x : Task α} {r : Result (Option α)}
    (h : (Task.within ms x).finish i s = .ended r j t) (hr : r ≠ .exhausted) :
    (∃ a, r = .ok (some a) ∧ x.finish i s = .ended (.ok a) j t) ∨ r = .ok none ∨
      ∃ f, r = .fault f ∧ x.finish i s = .ended (.fault f) j t := by
  unfold Task.finish Task.within at h
  split at h
  · rcases Step.of_finish_within h with hok | hnone | hfault | hexhausted
    · exact .inl hok
    · exact .inr (.inl hnone)
    · exact .inr (.inr hfault)
    · exact absurd hexhausted hr
  · rw [Step.finish_bind] at h
    rcases Outcome.of_bind h hr with ⟨a, k, u, hx, hpure⟩ | ⟨f, hx, hf⟩
    · cases hpure
      exact .inl ⟨a, rfl, hx⟩
    · exact .inr (.inr ⟨f, hf, hx⟩)

end Deadlines

/-! ## Responses -/

namespace Runtime

/-- What comes of words that are executed on the stack of a request: a stack in wire form, or a
fault. The stack may be refused, a word may fail, or what is left cannot be sent. -/
inductive RunsTo (e : Nested) (r : Runtime) (words : List String) (stack : List Json) (s : Store) :
    Except Fault (List Json) → Prop
  | refused {message : String} {k k' : Interp} {t : Store} {f : Fault}
    (h : (r.seeded stack).finish k (s.log .debug logScope message) = .ended (.fault f) k' t) :
    RunsTo e r words stack s (.error f)
  | done {message : String} {i j k k' : Interp} {t u : Store} {xs : List Json}
    (h : (r.seeded stack).finish k (s.log .debug logScope message) = .ended (.ok i) k' t)
    (hwords : Completes e words i t j u) (hxs : Wire.encodeStack j.stack.toList = .ok xs) :
    RunsTo e r words stack s (.ok xs)
  | failed {message word : String} {before after : List String} {i j k k' l : Interp}
    {t u v : Store} {f : Fault}
    (h : (r.seeded stack).finish k (s.log .debug logScope message) = .ended (.ok i) k' t)
    (hwords : words = before ++ word :: after) (hbefore : Completes e before i t j u)
    (hword : (Wordstack.executeWord e word).finish j u = .ended (.fault f) l v) :
    RunsTo e r words stack s (.error f)
  | unsendable {message : String} {i j k k' : Interp} {t u : Store} {f : Fault}
    (h : (r.seeded stack).finish k (s.log .debug logScope message) = .ended (.ok i) k' t)
    (hwords : Completes e words i t j u) (hf : Wire.encodeStack j.stack.toList = .error f) :
    RunsTo e r words stack s (.error f)

/-- The response to a request, given what came of its words. -/
def responseOf (context : List (String × String)) : Except Fault (List Json) → StackResponse
  | .ok xs => ⟨xs, none⟩
  | .error f => failed f context

variable {e : Nested} {r : Runtime} {i j : Interp} {s t : Store}

/-- The work on a request for a single word ends with what comes of the word. -/
theorem runsTo_of_finish {word message : String} {stack : List Json} {result : Result (List Json)}
    (h : Task.finish (do
        let i ← r.seeded stack
        let (_, i) ← Task.onOther i (Task.call (Wordstack.executeWord e word))
        Task.lift (Wire.encodeStack i.stack.toList)) i (s.log .debug logScope message) =
      .ended result j t) (hr : result ≠ .exhausted) :
    (∃ xs, result = .ok xs ∧ RunsTo e r [word] stack s (.ok xs)) ∨
      ∃ f, result = .fault f ∧ RunsTo e r [word] stack s (.error f) := by
  rw [Task.finish_bind] at h
  rcases Outcome.of_bind h hr with ⟨i₀, k, u, hseeded, h⟩ | ⟨f, hseeded, rfl⟩
  · rw [Task.finish_bind] at h
    rcases Outcome.of_bind h hr with ⟨⟨_, j₀⟩, l, v, hother, h⟩ | ⟨f, hother, rfl⟩
    · have hword := Task.of_onOther hother
      rw [Task.finish_call] at hword
      have hwords : Completes e [word] i₀ u j₀ v := .cons hword .nil
      change (Task.lift (Wire.encodeStack j₀.stack.toList)).finish l v = _ at h
      cases hxs : Wire.encodeStack j₀.stack.toList with
      | ok xs =>
        rw [hxs] at h
        cases h
        exact .inl ⟨xs, rfl, .done hseeded hwords hxs⟩
      | error f =>
        rw [hxs] at h
        cases h
        exact .inr ⟨f, rfl, .unsendable hseeded hwords hxs⟩
    · obtain ⟨_, hword⟩ := Task.of_onOther_fault hother
      rw [Task.finish_call] at hword
      exact .inr ⟨f, rfl, .failed hseeded rfl .nil hword⟩
  · exact .inr ⟨f, rfl, .refused hseeded⟩

theorem response_of_executeWord {request : WordRequest} {result : Result StackResponse}
    (h : (r.executeWord e request).finish i s = .ended result j t) (hr : result ≠ .exhausted) :
    ∃ outcome, RunsTo e r [request.word] request.stack s outcome ∧
      result = .ok (responseOf [("word_name", request.word)] outcome) := by
  unfold executeWord at h
  rw [Task.finish_bind, Task.finish_log, Outcome.bind_ok, Task.finish_bind,
    Task.finish_attempt] at h
  rcases Outcome.of_attempt_bind h hr with ⟨xs, k, u, hx, h⟩ | ⟨f, k, u, hx, h⟩
  · cases h
    rcases runsTo_of_finish hx Result.ok_ne_exhausted with ⟨ys, hys, hto⟩ | ⟨g, hg, -⟩
    · cases hys
      exact ⟨.ok xs, hto, rfl⟩
    · cases hg
  · rw [Task.finish_bind, Task.finish_log, Outcome.bind_ok] at h
    cases h
    rcases runsTo_of_finish hx Result.fault_ne_exhausted with ⟨ys, hys, -⟩ | ⟨g, hg, hto⟩
    · cases hys
    · cases hg
      exact ⟨.error f, hto, rfl⟩

/-- Words that are run in order complete, or one of them fails and those before it complete. -/
theorem runWords_cases {n : Nat} {words : List String} {result : Result (Option FailedWord)}
    (h : (runWords e n words).finish i s = .ended result j t) (hr : result ≠ .exhausted) :
    (result = .ok none ∧ Completes e words i s j t) ∨
      ∃ w before after k u, result = .ok (some w) ∧ words = before ++ w.word :: after ∧
        Completes e before i s k u ∧
        (Wordstack.executeWord e w.word).finish k u = .ended (.fault w.fault) j t := by
  induction words generalizing n i s with
  | nil =>
    cases h
    exact .inl ⟨rfl, .nil⟩
  | cons word words ih =>
    rw [finish_runWords_cons] at h
    rcases Outcome.of_attempt_bind h hr with ⟨_, k, u, hw, h⟩ | ⟨f, k, u, hw, h⟩
    · rcases ih h with ⟨hnone, hwords⟩ | ⟨w, before, after, l, v, hsome, rfl, hbefore, hfault⟩
      · exact .inl ⟨hnone, .cons hw hwords⟩
      · exact .inr ⟨w, word :: before, after, l, v, hsome, rfl, .cons hw hbefore, hfault⟩
    · cases h
      exact .inr ⟨⟨f, word, n⟩, [], words, i, s, rfl, rfl, .nil, hw⟩

theorem response_of_executeSequence {request : SequenceRequest} {result : Result StackResponse}
    (h : (r.executeSequence e request).finish i s = .ended result j t) (hr : result ≠ .exhausted) :
    ∃ outcome context, RunsTo e r request.words request.stack s outcome ∧
      result = .ok (responseOf context outcome) := by
  rw [finish_executeSequence] at h
  let text := Text.join " " request.words
  rcases Outcome.of_attempt_bind h hr with ⟨i₀, k, u, hseeded, h⟩ | ⟨f, k, u, hseeded, h⟩
  · dsimp only at h
    cases hrun : (runWords e 0 request.words).finish i₀ u with
    | hung v =>
      rw [hrun] at h
      cases h
    | ended result' l v =>
      rw [hrun] at h
      have hresult' : result' ≠ .exhausted := by
        rintro rfl
        cases h
        exact hr rfl
      rcases runWords_cases hrun hresult' with ⟨rfl, hwords⟩ | ⟨w, before, after, m, u', rfl, hw⟩
      · cases hxs : Wire.encodeStack l.stack.toList with
        | ok xs =>
          refine ⟨.ok xs, [], .done hseeded hwords hxs, ?_⟩
          simp only [Outcome.restoring, Outcome.bind_ok, concludeSequence, hxs] at h
          cases h
          rfl
        | error f =>
          refine ⟨.error f, [("word_sequence", text)], .unsendable hseeded hwords hxs, ?_⟩
          simp only [Outcome.restoring, Outcome.bind_ok, concludeSequence, hxs] at h
          cases h
          rfl
      · obtain ⟨hwords, hbefore, hfault⟩ := hw
        refine ⟨.error w.fault, [("word_sequence", text), ("failed_word", w.word),
          ("failed_index", toString w.index)], .failed hseeded hwords hbefore hfault, ?_⟩
        simp only [Outcome.restoring, Outcome.bind_ok, concludeSequence] at h
        cases h
        rfl
  · cases h
    exact ⟨.error f, [("word_sequence", text)], .refused hseeded, rfl⟩

end Runtime

/-! ## Frames -/

namespace Frame

/-- The identity that the reply to a frame has: the one of the frame if that is a text or a number,
otherwise null. -/
inductive HasId (text : String) : Json → Prop
  | text {fields : List (String × Json)} {id : String} (h : Json.ofText? text = some (.obj fields))
    (hid : fields.lookup "id" = some (.str id)) : HasId text (.str id)
  | number {fields : List (String × Json)} {id : Binary64}
    (h : Json.ofText? text = some (.obj fields)) (hid : fields.lookup "id" = some (.num id)) :
    HasId text (.num id)
  | none (h : ∀ fields, Json.ofText? text = some (.obj fields) →
      (∀ id, fields.lookup "id" ≠ some (.str id)) ∧ ∀ id, fields.lookup "id" ≠ some (.num id)) :
    HasId text .null

/-- A frame that asks for a method with a body, which is empty if the frame has none. -/
def Asks (text : String) (method : Method) (body : Json) : Prop :=
  ∃ fields, Json.ofText? text = some (.obj fields) ∧
    fields.lookup "method" = some (.str method.name) ∧
    body = (fields.lookup "request").getD (.obj [])

theorem hasId_of_object {text : String} {fields : List (String × Json)}
    (h : Json.ofText? text = some (.obj fields)) : HasId text (Endpoint.frameId fields) := by
  unfold Endpoint.frameId
  split
  · rename_i id hid
    exact .text h hid
  · rename_i id hid
    exact .number h hid
  · rename_i hstr hnum
    refine .none fun fields' h' => ?_
    obtain rfl : fields = fields' := by simpa [h] using h'
    exact ⟨hstr, hnum⟩

theorem hasId_of_not_object {text : String} (h : ∀ fields, Json.ofText? text ≠ some (.obj fields)) :
    HasId text .null :=
  .none fun fields hfields => absurd hfields (h fields)

/-- A frame asks for one thing at most. -/
theorem Asks.unique {text : String} {method method' : Method} {body body' : Json}
    (h : Asks text method body) (h' : Asks text method' body') :
    method' = method ∧ body' = body := by
  obtain ⟨fields, htext, hmethod, rfl⟩ := h
  obtain ⟨fields', htext', hmethod', rfl⟩ := h'
  obtain rfl : fields = fields' := by simpa [htext] using htext'
  have hname : method.name = method'.name := by simpa [hmethod] using hmethod'
  refine ⟨?_, rfl⟩
  cases method <;> cases method' <;> first | rfl | simp [Method.name] at hname

theorem ofName?_eq_some_iff {name : String} {method : Method} :
    Method.ofName? name = some method ↔ name = method.name := by
  constructor
  · intro h
    have hmem := mem_of_lookup h
    simp only [Method.named, List.mem_cons, Prod.mk.injEq, List.not_mem_nil, or_false] at hmem
    rcases hmem with ⟨rfl, rfl⟩ | ⟨rfl, rfl⟩ | ⟨rfl, rfl⟩ | ⟨rfl, rfl⟩ <;> rfl
  · rintro rfl
    exact Method.ofName?_name method

end Frame

/-! ## Answers -/

/-- Whether a task comes to an end: it does not wait for ever, and is not nested too deeply. -/
def Outcome.comesToEnd {α : Type} : Outcome α → Bool
  | .ended .exhausted _ _ => false
  | .ended _ _ _ => true
  | .hung _ => false

theorem Outcome.exists_of_comesToEnd {α : Type} {x : Outcome α} (h : x.comesToEnd = true) :
    ∃ r i s, x = .ended r i s ∧ r ≠ .exhausted := by
  cases x with
  | hung => cases h
  | ended r i s =>
    refine ⟨r, i, s, rfl, ?_⟩
    rintro rfl
    cases h

namespace Endpoint

variable {e : Nested} {p : Endpoint} {i j : Interp} {s t : Store} {text : String}

/-- The words that a frame asks for finish, or run into the deadline of the endpoint. -/
structure Finishes (e : Nested) (p : Endpoint) (i : Interp) (s : Store) (text : String) : Prop where
  word : ∀ body request, Frame.Asks text .executeWord body →
    Wire.readWordRequest (some body) = .ok request →
    ((Task.within p.timeout (p.runtime.executeWord e request)).finish i s).comesToEnd = true
  sequence : ∀ body request, Frame.Asks text .executeSequence body →
    Wire.readSequenceRequest (some body) = .ok request →
    ((Task.within p.timeout (p.runtime.executeSequence e request)).finish i s).comesToEnd = true

/-- The response that words of a request have: the stack that they leave, or no stack and a report
of what has failed or of the missed deadline. -/
inductive Reports (e : Nested) (p : Endpoint) (method : Method) (words : List String)
    (stack : List Json) (s : Store) : Json → Prop
  | stack {xs : List Json} (h : p.runtime.RunsTo e words stack s (.ok xs)) :
    Reports e p method words stack s (.obj [("result_stack", .arr xs)])
  | failure {f : Fault} {context : List (String × String)}
    (h : p.runtime.RunsTo e words stack s (.error f) ∨
      f = .requestTimeout method.name p.timeout) :
    Reports e p method words stack s
      (.obj [("result_stack", .arr []), ("error", (f.report context).toJson)])

/-- The reply to a frame, and the state after it. -/
structure Answers (e : Nested) (p : Endpoint) (i : Interp) (s : Store) (text : String)
    (reply : Json) (j : Interp) (t : Store) : Prop where
  /-- The reply carries the identity of the frame and either a response or an error. -/
  one : ∃ id key x, Frame.HasId text id ∧ (key = "response" ∨ key = "error") ∧
    reply = .obj [("id", id), (key, x)]
  /-- What is no request of a known method is refused for its form, and nothing is executed. -/
  refused : (∀ method body, Frame.Asks text method body → ¬ Wire.IsRequest method (some body)) →
    ∃ id info, reply = .obj [("id", id), ("error", Report.toJson info)] ∧
      info.errorType = "WireFormatError" ∧ j = i ∧ t = s
  /-- What comes of a word is in the response. -/
  word : ∀ body, Frame.Asks text .executeWord body → Wire.IsRequest .executeWord (some body) →
    ∃ request id x, Wire.readWordRequest (some body) = .ok request ∧
      reply = .obj [("id", id), ("response", x)] ∧
      p.Reports e .executeWord [request.word] request.stack s x
  /-- What comes of words in sequence is in the response. -/
  sequence : ∀ body, Frame.Asks text .executeSequence body →
    Wire.IsRequest .executeSequence (some body) →
    ∃ request id x, Wire.readSequenceRequest (some body) = .ok request ∧
      reply = .obj [("id", id), ("response", x)] ∧
      p.Reports e .executeSequence request.words request.stack s x

/-- The response to words that have come to an end in time, or have missed the deadline. -/
theorem reports_of_inTime {method : Method} {words : List String} {stack : List Json}
    {x : Task StackResponse} (context : List (String × String))
    (hend : ((Task.within p.timeout x).finish i s).comesToEnd = true)
    (hx : ∀ result j t, x.finish i s = .ended result j t → result ≠ .exhausted →
      ∃ outcome context, p.runtime.RunsTo e words stack s outcome ∧
        result = .ok (Runtime.responseOf context outcome)) :
    ∃ outcome j t, (p.inTime method x).finish i s = .ended (.ok outcome) j t ∧
      p.Reports e method words stack s (stackReply context outcome) := by
  obtain ⟨r, j, t, hr, hne⟩ := Outcome.exists_of_comesToEnd hend
  unfold inTime
  rw [Task.finish_bind, hr]
  rcases Task.of_finish_within hr hne with ⟨response, rfl, hok⟩ | rfl | ⟨f, rfl, hfault⟩
  · refine ⟨.ok response, j, t, rfl, ?_⟩
    obtain ⟨outcome, context', hruns, hresponse⟩ := hx _ j t hok Result.ok_ne_exhausted
    obtain rfl : response = Runtime.responseOf context' outcome := Result.ok.inj hresponse
    cases outcome with
    | ok xs => exact .stack hruns
    | error f => exact .failure (.inl hruns)
  · exact ⟨.error (.requestTimeout method.name p.timeout), j, t, rfl, .failure (.inr rfl)⟩
  · obtain ⟨outcome, context', -, hresult⟩ := hx _ j t hfault Result.fault_ne_exhausted
    cases hresult

/-- A body that is no request of the method is refused before anything is done. -/
theorem finish_invoke_refused {method : Method} {body : Json}
    (h : ¬ Wire.IsRequest method (some body)) :
    ∃ note,
      (p.invoke e method (some body)).finish i s = .ended (.fault (.wireFormat note)) i s := by
  cases method with
  | executeWord =>
    obtain ⟨note, hread⟩ := (Wire.judges_word (some body)).exists_note h
    refine ⟨note, ?_⟩
    unfold invoke
    rw [Task.finish_bind, hread]
    rfl
  | executeSequence =>
    obtain ⟨note, hread⟩ := (Wire.judges_sequence (some body)).exists_note h
    refine ⟨note, ?_⟩
    unfold invoke
    rw [Task.finish_bind, hread]
    rfl
  | listModules => exact absurd (.listing _) h
  | getModuleInfo =>
    obtain ⟨note, hread⟩ := (Wire.judges_info (some body)).exists_note h
    refine ⟨note, ?_⟩
    unfold invoke
    rw [Task.finish_bind, hread]
    rfl

theorem finish_invoke_executeWord {body : Json} (hfin : p.Finishes e i s text)
    (hasks : Frame.Asks text .executeWord body) (h : Wire.IsRequest .executeWord (some body)) :
    ∃ request x j t, Wire.readWordRequest (some body) = .ok request ∧
      (p.invoke e .executeWord (some body)).finish i s = .ended (.ok x) j t ∧
      p.Reports e .executeWord [request.word] request.stack s x := by
  obtain ⟨request, hread⟩ := (Wire.judges_word (some body)).isOk_iff.mpr h
  obtain ⟨outcome, j, t, hin, hreports⟩ := reports_of_inTime [("word_name", request.word)]
    (hfin.word body request hasks hread) fun result j t hx hr => by
      obtain ⟨outcome, hruns, hresult⟩ := Runtime.response_of_executeWord hx hr
      exact ⟨outcome, _, hruns, hresult⟩
  refine ⟨request, _, j, t, hread, ?_, hreports⟩
  unfold invoke
  rw [Task.finish_bind, hread, Task.finish_lift_ok, Outcome.bind_ok, Task.finish_bind, hin]
  rfl

theorem finish_invoke_executeSequence {body : Json} (hfin : p.Finishes e i s text)
    (hasks : Frame.Asks text .executeSequence body)
    (h : Wire.IsRequest .executeSequence (some body)) :
    ∃ request x j t, Wire.readSequenceRequest (some body) = .ok request ∧
      (p.invoke e .executeSequence (some body)).finish i s = .ended (.ok x) j t ∧
      p.Reports e .executeSequence request.words request.stack s x := by
  obtain ⟨request, hread⟩ := (Wire.judges_sequence (some body)).isOk_iff.mpr h
  obtain ⟨outcome, j, t, hin, hreports⟩ :=
    reports_of_inTime [("word_sequence", Text.join " " request.words)]
      (hfin.sequence body request hasks hread) fun _ _ _ hx hr =>
        Runtime.response_of_executeSequence hx hr
  refine ⟨request, _, j, t, hread, ?_, hreports⟩
  unfold invoke
  rw [Task.finish_bind, hread, Task.finish_lift_ok, Outcome.bind_ok, Task.finish_bind, hin]
  rfl

/-- Every method that a frame asks for comes to an end. -/
theorem exists_finish_invoke {method : Method} {body : Json} (hfin : p.Finishes e i s text)
    (hasks : Frame.Asks text method body) :
    ∃ r j t, (p.invoke e method (some body)).finish i s = .ended r j t ∧ r ≠ .exhausted := by
  by_cases h : Wire.IsRequest method (some body)
  · cases method with
    | executeWord =>
      obtain ⟨-, x, j, t, -, hx, -⟩ := finish_invoke_executeWord hfin hasks h
      exact ⟨.ok x, j, t, hx, Result.ok_ne_exhausted⟩
    | executeSequence =>
      obtain ⟨-, x, j, t, -, hx, -⟩ := finish_invoke_executeSequence hfin hasks h
      exact ⟨.ok x, j, t, hx, Result.ok_ne_exhausted⟩
    | listModules => exact ⟨_, i, s, rfl, Result.ok_ne_exhausted⟩
    | getModuleInfo =>
      obtain ⟨request, hread⟩ := (Wire.judges_info (some body)).isOk_iff.mpr h
      unfold invoke
      rw [Task.finish_bind, hread, Task.finish_lift_ok, Outcome.bind_ok, Task.finish_bind,
        Task.finish_view, Outcome.bind_ok, Task.finish_bind]
      cases p.runtime.moduleInfo s request.module with
      | ok doc => exact ⟨_, i, s, rfl, Result.ok_ne_exhausted⟩
      | error f => exact ⟨.fault f, i, s, rfl, Result.fault_ne_exhausted⟩
  · obtain ⟨note, hx⟩ := finish_invoke_refused (e := e) (p := p) (i := i) (s := s) h
    exact ⟨_, i, s, hx, Result.fault_ne_exhausted⟩

/-- The reply to a frame of a method, once the call has ended. -/
def replyTo (fields : List (String × Json)) (method : Method) : Except Fault Json → Json
  | .ok response => frameReply (frameId fields) "response" response
  | .error f => frameReply (frameId fields) "error" (errorOf f [("method", method.name)])

/-- The reply to a frame that asks for a method of a known name. -/
theorem finish_answerFrame {fields : List (String × Json)} {method : Method}
    (htext : Json.ofText? text = some (.obj fields))
    (hmethod : fields.lookup "method" = some (.str method.name)) :
    (p.answerFrame e text).finish i s =
      ((p.invoke e method (some ((fields.lookup "request").getD (.obj [])))).finish i
        s).attempt.bind fun o j t => .ended (.ok (replyTo fields method o)) j t := by
  have hname : ((fields.lookup "method").bind Json.str?).getD "" = method.name := by
    rw [hmethod]
    rfl
  have hbody : (fields.lookup "request").or (some (.obj [])) =
      some ((fields.lookup "request").getD (.obj [])) := by
    cases fields.lookup "request" <;> rfl
  unfold answerFrame
  rw [htext]
  simp only [hname, Method.ofName?_name, hbody]
  rw [Task.finish_bind, Task.finish_attempt]
  refine congrArg (Outcome.bind _) (funext fun o => ?_)
  cases o with
  | ok response => rfl
  | error f => rfl

/-- A frame that names no method is refused. -/
theorem finish_answerFrame_unasked (h : ∀ method body, ¬ Frame.Asks text method body) :
    ∃ id note, Frame.HasId text id ∧ (p.answerFrame e text).finish i s =
      .ended (.ok (frameReply id "error" (errorOf (.wireFormat note) []))) i s := by
  unfold answerFrame
  split
  · rename_i hnone
    exact ⟨.null, _, Frame.hasId_of_not_object (by simp [hnone]), rfl⟩
  · rename_i fields hfields
    have hid := Frame.hasId_of_object hfields
    cases hname : Method.ofName? (((fields.lookup "method").bind Json.str?).getD "") with
    | none =>
      let name := ((fields.lookup "method").bind Json.str?).getD ""
      refine ⟨_, "Unknown method: " ++ if name.isEmpty then "<missing>" else name, hid, ?_⟩
      simp only [hname]
      rfl
    | some method =>
      exfalso
      have hmethod := Frame.ofName?_eq_some_iff.mp hname
      refine h method _ ⟨fields, hfields, ?_, rfl⟩
      cases hlookup : fields.lookup "method" with
      | none =>
        rw [hlookup] at hmethod
        cases method <;> simp [Method.name] at hmethod
      | some x =>
        rw [hlookup] at hmethod
        cases x with
        | str s => exact congrArg (some ∘ Json.str) hmethod
        | _ => cases method <;> simp [Method.name, Json.str?] at hmethod
  · rename_i x hx hfields
    refine ⟨.null, _, Frame.hasId_of_not_object fun fields hobj => ?_, rfl⟩
    rw [hfields] at hobj
    exact hx fields (Option.some.inj hobj)

/-- The answer to a frame that asks for a method is what has come of the call. -/
theorem answers_asked {method : Method} {body : Json} (hfin : p.Finishes e i s text)
    (hasks : Frame.Asks text method body) :
    ∃ reply j t, (p.answerFrame e text).finish i s = .ended (.ok reply) j t ∧
      p.Answers e i s text reply j t := by
  obtain ⟨fields, htext, hmethod, hbody⟩ := id hasks
  have hid := Frame.hasId_of_object htext
  have hfinish := finish_answerFrame (e := e) (p := p) (i := i) (s := s) htext hmethod
  rw [← hbody] at hfinish
  by_cases hrequest : Wire.IsRequest method (some body)
  · have hvalid : ¬ ∀ m b, Frame.Asks text m b → ¬ Wire.IsRequest m (some b) :=
      fun h => h method body hasks hrequest
    have hother : ∀ {m b}, m ≠ method → ¬ Frame.Asks text m b :=
      fun hne h => hne (hasks.unique h).1
    cases method with
    | executeWord =>
      obtain ⟨request, x, j, t, hread, hx, hreports⟩ :=
        finish_invoke_executeWord hfin hasks hrequest
      rw [hx] at hfinish
      refine ⟨_, j, t, hfinish, ⟨_, "response", x, hid, .inl rfl, rfl⟩, fun h => absurd h hvalid,
        fun b hb _ => ?_, fun b hb => absurd hb (hother nofun)⟩
      obtain ⟨-, rfl⟩ := hasks.unique hb
      exact ⟨request, _, x, hread, rfl, hreports⟩
    | executeSequence =>
      obtain ⟨request, x, j, t, hread, hx, hreports⟩ :=
        finish_invoke_executeSequence hfin hasks hrequest
      rw [hx] at hfinish
      refine ⟨_, j, t, hfinish, ⟨_, "response", x, hid, .inl rfl, rfl⟩, fun h => absurd h hvalid,
        fun b hb => absurd hb (hother nofun), fun b hb _ => ?_⟩
      obtain ⟨-, rfl⟩ := hasks.unique hb
      exact ⟨request, _, x, hread, rfl, hreports⟩
    | listModules | getModuleInfo =>
      obtain ⟨r, j, t, hx, hr⟩ := exists_finish_invoke hfin hasks
      rw [hx] at hfinish
      have hword : ∀ b, ¬ Frame.Asks text .executeWord b := fun b => hother nofun
      have hsequence : ∀ b, ¬ Frame.Asks text .executeSequence b := fun b => hother nofun
      cases r with
      | ok x =>
        exact ⟨_, j, t, hfinish, ⟨_, "response", x, hid, .inl rfl, rfl⟩, fun h => absurd h hvalid,
          fun b hb => absurd hb (hword b), fun b hb => absurd hb (hsequence b)⟩
      | fault f =>
        exact ⟨_, j, t, hfinish, ⟨_, "error", _, hid, .inr rfl, rfl⟩, fun h => absurd h hvalid,
          fun b hb => absurd hb (hword b), fun b hb => absurd hb (hsequence b)⟩
      | exhausted => exact absurd rfl hr
  · obtain ⟨note, hx⟩ := finish_invoke_refused (e := e) (p := p) (i := i) (s := s) hrequest
    rw [hx] at hfinish
    refine ⟨_, i, s, hfinish, ?_⟩
    have hnot : ∀ {m b}, Frame.Asks text m b → ¬ Wire.IsRequest m (some b) := by
      intro m b hm
      obtain ⟨rfl, rfl⟩ := hasks.unique hm
      exact hrequest
    exact
      { one := ⟨_, "error", _, hid, .inr rfl, rfl⟩
        refused := fun _ => ⟨_, _, rfl, rfl, rfl, rfl⟩
        word := fun b hb h => absurd h (hnot hb)
        sequence := fun b hb h => absurd h (hnot hb) }

end Endpoint

/-- If the words of a runtime finish or run into the deadline, there is one answer to every text
that comes in as a frame, and it is as described. -/
theorem every_frame_gets_one_answer {e : Nested} {p : Endpoint} {i : Interp} {s : Store}
    {text : String} (hfin : p.Finishes e i s text) :
    ∃ reply j t, (p.answerFrame e text).finish i s = .ended (.ok reply) j t ∧
      p.Answers e i s text reply j t := by
  by_cases hasked : ∃ method body, Frame.Asks text method body
  · obtain ⟨method, body, hasks⟩ := hasked
    exact Endpoint.answers_asked hfin hasks
  · have hnone : ∀ method body, ¬ Frame.Asks text method body :=
      fun method body h => hasked ⟨method, body, h⟩
    obtain ⟨id, note, hid, hfinish⟩ :=
      Endpoint.finish_answerFrame_unasked (e := e) (p := p) (i := i) (s := s) hnone
    refine ⟨_, i, s, hfinish, ?_⟩
    exact
      { one := ⟨id, "error", _, hid, .inr rfl, rfl⟩
        refused := fun _ => ⟨id, _, rfl, rfl, rfl, rfl⟩
        word := fun b hb => absurd hb (hnone _ b)
        sequence := fun b hb => absurd hb (hnone _ b) }

/-- An endpoint whose runtime has no words. -/
def Endpoint.wordless : Endpoint where
  address := "localhost:0"
  runtime := { registry := Interp.Settings.emptyCore.registry, zone := some "+00:00" }
  timeout := 30000

/-- A frame that asks for a word that is not there. -/
def Frame.forMissing : String :=
  "\x7b\"id\":\"q\",\"method\":\"ExecuteWord\",\"request\":\x7b\"word_name\":\"MISSING\"\x7d\x7d"

/-- Whether a text was read as that call. -/
def Frame.isForMissing : Option Json → Bool
  | some (.obj [(a, .str q), (b, .str m), (c, .obj [(d, .str w)])]) =>
    [a, q, b, m, c, d, w] ==
      ["id", "q", "method", "ExecuteWord", "request", "word_name", "MISSING"]
  | _ => false

theorem Frame.ofText?_forMissing : Json.ofText? Frame.forMissing =
    some (.obj [("id", .str "q"), ("method", .str "ExecuteWord"),
      ("request", .obj [("word_name", .str "MISSING")])]) := by
  have hparsed : Frame.isForMissing (Json.ofText? Frame.forMissing) = true := by decide +kernel
  unfold Frame.isForMissing at hparsed
  split at hparsed
  · rename_i heq
    simp only [beq_iff_eq, List.cons.injEq, and_true] at hparsed
    obtain ⟨rfl, rfl, rfl, rfl, rfl, rfl, rfl⟩ := hparsed
    exact heq
  · cases hparsed

/-- Whether a reply to that call has a response of two fields. -/
def Frame.answersMissing : Outcome Json → Bool
  | .ended (.ok (.obj [(_, .str id), (_, .obj [_, _])])) _ _ => id == "q"
  | _ => false

/-- The word that is not there is reported in the response. -/
theorem every_frame_gets_one_answer_missing : ∃ j t info,
    (Endpoint.wordless.answerFrame (nested 1) Frame.forMissing).finish .host (.emptyCore []) =
      .ended (.ok (.obj [("id", .str "q"), ("response",
        .obj [("result_stack", .arr []), ("error", Report.toJson info)])])) j t := by
  have hasks : Frame.Asks Frame.forMissing .executeWord
      (.obj [("word_name", .str "MISSING")]) := ⟨_, Frame.ofText?_forMissing, rfl, rfl⟩
  have hread : Wire.readWordRequest (some (.obj [("word_name", .str "MISSING")])) =
      .ok ⟨"MISSING", []⟩ := rfl
  have hfin : Endpoint.wordless.Finishes (nested 1) .host (.emptyCore []) Frame.forMissing := by
    constructor
    · intro body request h hrequest
      obtain ⟨-, rfl⟩ := hasks.unique h
      obtain rfl := Except.ok.inj (hread.symm.trans hrequest)
      decide +kernel
    · intro body request h
      cases (hasks.unique h).1
  have hshape : Frame.answersMissing ((Endpoint.wordless.answerFrame (nested 1)
      Frame.forMissing).finish .host (.emptyCore [])) = true := by decide +kernel
  obtain ⟨reply, j, t, hfinish, hanswers⟩ := every_frame_gets_one_answer hfin
  obtain ⟨request, id, x, hrequest, rfl, hreports⟩ :=
    hanswers.word _ hasks ((Wire.judges_word _).isOk_iff.mp ⟨_, hread⟩)
  rw [hfinish] at hshape
  unfold Frame.answersMissing at hshape
  cases hreports with
  | stack =>
    split at hshape
    · rename_i heq
      cases heq
    · cases hshape
  | @failure f context =>
    refine ⟨j, t, f.report context, ?_⟩
    split at hshape
    · rename_i heq
      cases heq
      rw [hfinish, beq_iff_eq.mp hshape]
    · cases hshape

end Wordstack
