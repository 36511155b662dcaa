import Wordstack.Proofs.Bridge.Transparency
import Wordstack.Proofs.Fault.Blame
import Wordstack.Proofs.Machine.Unaltered
import Wordstack.Proofs.Wire.RoundTrip

/-!
# Sequences of words

A request to run a sequence of words can be split in two, the second one on the stack that the first
one has answered.

- **Completed words** (`Runtime.Completes`): words that were run one after the other.
- **Running words** (`Runtime.finish_runWords_append`, `Runtime.finish_runWords_failing`,
  `Runtime.of_runWords_none`).
- **Any schedule** (`Step.Gives`): what a task gives, whatever is done in its pauses.
- **Reports** (`Report.FailedAt`, `StackResponse.Continues`): where a sequence has failed, and how the
  response to a sequence is that to the rest of it.
- **Words that depend on the stack only** (`Runtime.DependOnStack`): in the interpreters of requests.
- **Sequences** (`sequences_compose`).
-/

namespace Wordstack

/-! ## Completed words -/

namespace Runtime

/-- Words that were executed in order, each without a fault. -/
inductive Completes (e : Nested) : List String → Interp → Store → Interp → Store → Prop
  | nil {i : Interp} {s : Store} : Completes e [] i s i s
  | cons {word : String} {words : List String} {i j k : Interp} {s t u : Store}
      (hw : (Wordstack.executeWord e word).finish i s = .ended (.ok ()) j t)
      (hrest : Completes e words j t k u) : Completes e (word :: words) i s k u

section Running

variable {e : Nested} {n : Nat} {word : String} {words done rest : List String}
  {i j k : Interp} {s t u : Store} {f : Fault}

theorem finish_runWords_cons :
    (runWords e n (word :: words)).finish i s =
      ((Wordstack.executeWord e word).finish i s).attempt.bind fun o j t =>
        Task.finish (match o with
          | .ok _ => runWords e (n + 1) words
          | .error f => return some ⟨f, word, n⟩) j t := by
  have hfirst : ((Task.call (Wordstack.executeWord e word)).attempt).finish i s =
      ((Wordstack.executeWord e word).finish i s).attempt := by
    rw [Task.finish_attempt, Task.finish_call]
  refine (Task.finish_bind _ _ i s).trans (congrArg₂ Outcome.bind hfirst ?_)
  funext o
  cases o with
  | ok => rfl
  | error f => rfl

/-- Words that complete are followed by the others. -/
theorem finish_runWords_append (h : Completes e done i s j t) :
    (runWords e n (done ++ rest)).finish i s = (runWords e (n + done.length) rest).finish j t := by
  induction h generalizing n with
  | nil => rfl
  | cons hw _ ih =>
    rw [List.cons_append, finish_runWords_cons, hw, Outcome.attempt_ok, Outcome.bind_ok, ih,
      List.length_cons, Nat.add_right_comm n 1, Nat.add_assoc]

theorem finish_runWords_completes (h : Completes e words i s j t) :
    (runWords e n words).finish i s = .ended (.ok none) j t := by
  rw [← List.append_nil words, finish_runWords_append h]
  rfl

/-- The first word that fails ends the sequence. -/
theorem finish_runWords_failing
    (h : (Wordstack.executeWord e word).finish i s = .ended (.fault f) j t) :
    (runWords e n (word :: rest)).finish i s = .ended (.ok (some ⟨f, word, n⟩)) j t := by
  rw [finish_runWords_cons, h, Outcome.attempt_fault, Outcome.bind_ok]
  rfl

/-- Where no word has failed, all have completed. -/
theorem of_runWords_none (h : (runWords e n words).finish i s = .ended (.ok none) k u) :
    Completes e words i s k u := by
  induction words generalizing n i s with
  | nil =>
    cases h
    exact .nil
  | cons word words ih =>
    rw [finish_runWords_cons] at h
    obtain ⟨a, j, t, hw, h⟩ | ⟨f, j, t, -, h⟩ := Outcome.of_attempt_bind h Result.ok_ne_exhausted
    · exact .cons hw (ih h)
    · cases h

end Running

end Runtime

/-! ## Any schedule -/

/-- Whatever is done to the store in its pauses, a step does not end with a fault, and what it ends
with is as described. -/
inductive Step.Gives {α : Type} (P : α → Prop) : Step α → Prop
  | ok {a : α} {i : Interp} {s : Store} (h : P a) : Gives P (.done (.ok a) i s)
  | exhausted {i : Interp} {s : Store} : Gives P (.done .exhausted i s)
  | pause {w : Wait} {s : Store} {resume : Wake → Store → Step α}
      (h : ∀ wake t, Gives P (resume wake t)) : Gives P (.pause w s resume)

namespace Step.Gives

variable {α β : Type} {P : α → Prop} {Q : β → Prop} {x : Step α}

theorem bind (h : x.Gives P) {f : α → Task β} (hf : ∀ a i s, P a → (f a i s).Gives Q) :
    (x.bind f).Gives Q := by
  induction h with
  | ok h => exact hf _ _ _ h
  | exhausted => exact .exhausted
  | pause _ ih => exact .pause ih

/-- Faults that are values do not end anything. -/
theorem attempt (x : Step α) : x.attempt.Gives fun _ => True := by
  induction x with
  | done r i s => cases r with
    | exhausted => exact .exhausted
    | _ => exact .ok ⟨⟩
  | pause w s resume ih => exact .pause fun wake t => ih wake t

theorem restoring (h : x.Gives P) (i : Interp) : (x.restoring i).Gives fun p => P p.1 := by
  induction h with
  | ok h => exact .ok h
  | exhausted => exact .exhausted
  | pause _ ih => exact .pause ih

end Step.Gives

/-- A response says what the stack is, or what has failed. -/
def StackResponse.EitherWay (r : StackResponse) : Prop := r.failure.isSome = true → r.stack = []

namespace Runtime

variable {e : Nested} {r : Runtime}

theorem gives_runWords (n : Nat) (words : List String) (i : Interp) (s : Store) :
    (runWords e n words i s).Gives fun _ => True := by
  induction words generalizing n i s with
  | nil => exact .ok ⟨⟩
  | cons word rest ih =>
    refine Step.Gives.bind (.attempt _) fun o j t _ => ?_
    cases o with
    | ok => exact ih (n + 1) j t
    | error f => exact .ok ⟨⟩

/-- Requests to run a word are answered, with a stack or with a report. -/
theorem gives_executeWord (request : WordRequest) (i : Interp) (s : Store) :
    (r.executeWord e request i s).Gives StackResponse.EitherWay := by
  refine Step.Gives.bind (.attempt _) fun o j t _ => ?_
  cases o with
  | ok stack => exact .ok nofun
  | error f => exact .ok fun _ => rfl

/-- Requests to run a sequence are answered, with a stack or with a report. -/
theorem gives_executeSequence (request : SequenceRequest) (i : Interp) (s : Store) :
    (r.executeSequence e request i s).Gives StackResponse.EitherWay := by
  refine Step.Gives.bind (.attempt _) fun o j t _ => ?_
  cases o with
  | error f => exact .ok fun _ => rfl
  | ok other =>
    refine ((gives_runWords 0 request.words other t).restoring j).bind fun p k u _ => ?_
    obtain ⟨_ | w, i'⟩ := p
    · dsimp only
      cases Wire.encodeStack i'.stack.toList with
      | ok stack => exact .ok nofun
      | error f => exact .ok fun _ => rfl
    · exact .ok fun _ => rfl

end Runtime

/-! ## Reports -/

/-- The word of a sequence that a report names, and its place, if it names any. -/
def Report.FailedAt (x : Report) : Option (String × Nat) → Prop
  | none => x.context.lookup "failed_word" = none ∧ x.context.lookup "failed_index" = none
  | some (word, n) => x.context.lookup "failed_word" = some word ∧
    x.context.lookup "failed_index" = some (toString n)

theorem Fault.report_failedAt (f : Fault) (words word : String) (n : Nat) :
    (f.report [("word_sequence", words), ("failed_word", word), ("failed_index", toString n)]).FailedAt
      (some (word, n)) := by
  constructor
  · rw [lookup_report (by decide) (by decide) (by decide)]
    rfl
  · rw [lookup_report (by decide) (by decide) (by decide)]
    rfl

theorem Fault.report_failedAt_none (f : Fault) (words : String) :
    (f.report [("word_sequence", words)]).FailedAt none := by
  constructor
  · rw [lookup_report (by decide) (by decide) (by decide)]
    rfl
  · rw [lookup_report (by decide) (by decide) (by decide)]
    rfl

/-- The same failure, of the same word if any, but `n` places later. -/
structure Report.Continues (n : Nat) (x y : Report) : Prop where
  kind : x.errorType = y.errorType
  message : x.message = y.message
  place : ∃ at?, y.FailedAt at? ∧ x.FailedAt (at?.map fun p => (p.1, p.2 + n))

/-- The same stack, or the same failure `n` places later. -/
structure StackResponse.Continues (n : Nat) (x y : StackResponse) : Prop where
  stack : x.stack = y.stack
  failure : Option.Rel (Report.Continues n) x.failure y.failure

/-! ## Words that depend on the stack only -/

namespace Runtime

/-- The situations in which words of the given names are executed in requests that come in on one of
the given stores: first on the stack of a request, then after each of the words. -/
inductive Visits (r : Runtime) (e : Nested) (stores : List Store) (names : List String) :
    Interp → Store → Prop
  | start {s t : Store} {stack : List Json} {i k k' : Interp} {message : String} (hs : s ∈ stores)
      (h : (r.seeded stack).finish k (s.log .debug logScope message) = .ended (.ok i) k' t) :
      Visits r e stores names i t
  | next {i j : Interp} {s t : Store} {name : String} (h : Visits r e stores names i s)
      (hname : name ∈ names)
      (hx : (Wordstack.executeWord e name).finish i s = .ended (.ok ()) j t) :
      Visits r e stores names j t

/-- The effect of each of the words depends on the operand stack only: it is the same in any two of
the situations that have equal stacks. -/
def DependOnStack (r : Runtime) (e : Nested) (stores : List Store) (names : List String) : Prop :=
  ∀ name ∈ names, ∀ {i j : Interp} {s t : Store}, r.Visits e stores names i s →
    r.Visits e stores names j t → i.stack = j.stack →
      ((Wordstack.executeWord e name).finish i s).Meets (· = ·)
        ((Wordstack.executeWord e name).finish j t)

/-- The same failure of the same word, `n` places later. -/
structure FailedWord.Continues (n : Nat) (x y : FailedWord) : Prop where
  fault : x.fault.blur = y.fault.blur
  word : x.word = y.word
  index : x.index = y.index + n

section Visits

variable {r : Runtime} {e : Nested} {stores : List Store} {names words : List String}
  {i j : Interp} {s t : Store} {m n d : Nat}

theorem Visits.completes (h : r.Visits e stores names i s) (hw : ∀ w ∈ words, w ∈ names)
    (hc : Completes e words i s j t) : r.Visits e stores names j t := by
  induction hc with
  | nil => exact h
  | cons hx _ ih =>
    obtain ⟨hword, hwords⟩ := List.forall_mem_cons.mp hw
    exact ih (h.next hword hx) hwords

/-- Words that depend on the stack only do the same on equal stacks, one after the other. -/
theorem DependOnStack.runWords (hd : r.DependOnStack e stores names) (hw : ∀ w ∈ words, w ∈ names)
    (hi : r.Visits e stores names i s) (hj : r.Visits e stores names j t)
    (hs : i.stack = j.stack) (hn : n = m + d) :
    ((runWords e n words).finish i s).Meets (Option.Rel (FailedWord.Continues d))
      ((runWords e m words).finish j t) := by
  induction words generalizing n m i j s t with
  | nil => exact .ok .none hs
  | cons word words ih =>
    obtain ⟨hword, hwords⟩ := List.forall_mem_cons.mp hw
    have hmeets := hd word hword hi hj hs
    rw [finish_runWords_cons, finish_runWords_cons]
    generalize hx : (Wordstack.executeWord e word).finish i s = x,
      hy : (Wordstack.executeWord e word).finish j t = y at hmeets
    cases hmeets with
    | ok _ hs => exact ih hwords (hi.next hword hx) (hj.next hword hy) hs (by omega)
    | fault hf hs => exact .ok (.some ⟨hf, rfl, hn⟩) hs
    | exhausted => exact .exhausted
    | hung => exact .hung

/-- Words that complete in one situation do so in another one with the same stack. -/
theorem DependOnStack.completes {k : Interp} {u : Store} (hd : r.DependOnStack e stores names)
    (hw : ∀ w ∈ words, w ∈ names) (hi : r.Visits e stores names i s)
    (hj : r.Visits e stores names j t) (hs : i.stack = j.stack)
    (hc : Completes e words i s k u) :
    ∃ k' u', Completes e words j t k' u' ∧ k'.stack = k.stack := by
  induction hc generalizing j t with
  | nil => exact ⟨j, t, .nil, hs.symm⟩
  | cons hx _ ih =>
    obtain ⟨hword, hwords⟩ := List.forall_mem_cons.mp hw
    have hmeets := hd _ hword hi hj hs
    rw [hx] at hmeets
    obtain ⟨⟨⟩, j', t', hy, -, hs'⟩ := hmeets.of_ok
    obtain ⟨k', u', hc, hk⟩ := ih hwords (hi.next hword hx) (hj.next hword hy) hs'.symm
    exact ⟨k', u', .cons hy hc, hk⟩

end Visits

/-! ## Requests -/

/-- The response to a sequence that was run: the stack, or what has failed. -/
def concludeSequence (words : String) : Option FailedWord × Interp → StackResponse
  | (some w, _) => failed w.fault
    [("word_sequence", words), ("failed_word", w.word), ("failed_index", toString w.index)]
  | (none, i) =>
    match Wire.encodeStack i.stack.toList with
    | .ok stack => ⟨stack, none⟩
    | .error f => failed f [("word_sequence", words)]

end Runtime

/-- An outcome with the interpreter of somebody else put back. -/
def Outcome.restoring {α : Type} (i : Interp) : Outcome α → Outcome (α × Interp)
  | .ended (.ok a) j s => .ended (.ok (a, j)) i s
  | .ended (.fault f) _ s => .ended (.fault f) i s
  | .ended .exhausted _ s => .ended .exhausted i s
  | .hung s => .hung s

theorem Outcome.Meets.restoring {α β : Type} {R : α → β → Prop} {x : Outcome α} {y : Outcome β}
    {i : Interp} (h : x.Meets R y) :
    (x.restoring i).Meets (fun p q => R p.1 q.1 ∧ p.2.stack = q.2.stack) (y.restoring i) := by
  cases h with
  | ok h hs => exact .ok ⟨h, hs⟩ rfl
  | fault h hs => exact .fault h rfl
  | exhausted => exact .exhausted
  | hung => exact .hung

theorem OperandStack.ofList_toList (s : OperandStack) : ofList s.toList = s := by
  simp [toList, ofList]

namespace Runtime

variable {r : Runtime} {e : Nested} {s : Store} {words : List String} {stack : List Json}

/-- Where the log says that a sequence is run. -/
def noteSequence (s : Store) (words : List String) : Store :=
  s.log .debug logScope ("ExecuteSequence [" ++ Text.join " " words ++ "]")

theorem finish_executeSequence (r : Runtime) (e : Nested) (words : List String) (stack : List Json)
    (k : Interp) (s : Store) :
    (r.executeSequence e ⟨words, stack⟩).finish k s =
      ((r.seeded stack).finish k (noteSequence s words)).attempt.bind fun o k t =>
        match o with
        | .error f => .ended (.ok (failed f [("word_sequence", Text.join " " words)])) k t
        | .ok i => (((runWords e 0 words).finish i t).restoring k).bind fun p k u =>
          .ended (.ok (concludeSequence (Text.join " " words) p)) k u := by
  unfold executeSequence
  rw [Task.finish_bind, Task.finish_log, Outcome.bind_ok, Task.finish_bind, Task.finish_attempt]
  refine congrArg (Outcome.bind _) (funext fun o => funext fun k => funext fun t => ?_)
  cases o with
  | error f => rfl
  | ok i =>
    rw [Task.finish_bind]
    have hother : (Task.onOther i (runWords e 0 words)).finish k t =
        ((runWords e 0 words).finish i t).restoring k := Step.finish_restoring _ k
    rw [hother]
    refine congrArg (Outcome.bind _) (funext fun p => funext fun k => funext fun u => ?_)
    obtain ⟨_ | w, j⟩ := p
    · unfold concludeSequence
      dsimp only
      cases Wire.encodeStack j.stack.toList with
      | ok xs => rfl
      | error f => rfl
    · rfl

/-- The stack of a request is put on a new interpreter, which finds what names stand for, or it is
refused. -/
theorem Ready.finish_seeded (h : r.Ready s) (message : String) (stack : List Json) :
    ∃ (i : Interp) (t : Store), i.pending = [] ∧
      (∀ stack name w, r.resolved? s name = some w →
        ({ i with stack } : Interp).resolve t name none = .ok w) ∧
      ∀ k, (r.seeded stack).finish k (s.log .debug logScope message) =
        match Wire.decodeStack "stack" (some (.arr stack)) with
        | .ok vs => .ended (.ok { i with stack := .ofList vs }) k t
        | .error f => .ended (.fault f) k t := by
  obtain ⟨hmodules, hnow⟩ := modules_log s .debug logScope message
  obtain ⟨i, hfresh, hseeded⟩ := (h.of_modules_eq hmodules).seeded stack
  refine ⟨i, (s.log .debug logScope message).withApp r.imports, hfresh.pending,
    fun stack name w hw => ?_, fun k => ?_⟩
  · rw [hfresh.resolve, resolved?_eq_of_modules hmodules hnow, hw]
  · unfold Task.finish
    rw [hseeded]
    cases Wire.decodeStack "stack" (some (.arr stack)) with
    | ok vs => rfl
    | error f => rfl

/-- A stack that is decoded is the stack on which the words of a sequence are run. -/
theorem Ready.exists_seeded {vs : List Val} (h : r.Ready s)
    (hdecode : Wire.decodeStack "stack" (some (.arr stack)) = .ok vs) (words : List String) :
    ∃ (i : Interp) (t : Store), i.stack = .ofList vs ∧ i.pending = [] ∧
      (∀ name w, r.resolved? s name = some w → i.resolve t name none = .ok w) ∧
      ∀ k, (r.seeded stack).finish k (noteSequence s words) = .ended (.ok i) k t := by
  obtain ⟨i, t, hpending, hresolve, hseeded⟩ := h.finish_seeded _ stack
  rw [hdecode] at hseeded
  exact ⟨{ i with stack := .ofList vs }, t, rfl, hpending, hresolve _, hseeded⟩

theorem finish_executeSequence_seeded {i k : Interp} {t : Store}
    (h : (r.seeded stack).finish k (noteSequence s words) = .ended (.ok i) k t) :
    (r.executeSequence e ⟨words, stack⟩).finish k s =
      (((runWords e 0 words).finish i t).restoring k).bind fun p k u =>
        .ended (.ok (concludeSequence (Text.join " " words) p)) k u := by
  rw [finish_executeSequence, h]
  rfl

/-- A response with a stack is that of words that have all completed. -/
theorem of_concludeSequence {xs : List Json} {text : String} {p : Option FailedWord × Interp}
    (h : concludeSequence text p = ⟨xs, none⟩) :
    p.1 = none ∧ Wire.encodeStack p.2.stack.toList = .ok xs := by
  obtain ⟨_ | w, i⟩ := p
  · unfold concludeSequence at h
    dsimp only at h
    cases hxs : Wire.encodeStack i.stack.toList with
    | ok ys =>
      rw [hxs] at h
      cases h
      exact ⟨rfl, rfl⟩
    | error f =>
      rw [hxs] at h
      cases h
  · cases h

/-- A sequence that is answered with a stack has run to its end. -/
theorem Ready.of_executeSequence_ok {xs : List Json} {k k' : Interp} {t' : Store} (h : r.Ready s)
    (hok : (r.executeSequence e ⟨words, stack⟩).finish k s = .ended (.ok ⟨xs, none⟩) k' t') :
    ∃ vs i t j u, Wire.decodeStack "stack" (some (.arr stack)) = .ok vs ∧ i.stack = .ofList vs ∧
      (r.seeded stack).finish k (noteSequence s words) = .ended (.ok i) k t ∧
      Completes e words i t j u ∧ Wire.encodeStack j.stack.toList = .ok xs := by
  cases hdecode : Wire.decodeStack "stack" (some (.arr stack)) with
  | error f =>
    obtain ⟨i, t, -, -, hseeded⟩ :=
      h.finish_seeded ("ExecuteSequence [" ++ Text.join " " words ++ "]") stack
    rw [finish_executeSequence, noteSequence, hseeded, hdecode] at hok
    cases hok
  | ok vs =>
    obtain ⟨i, t, hstack, -, -, hseeded⟩ := h.exists_seeded hdecode words
    rw [finish_executeSequence_seeded (hseeded k)] at hok
    cases hrun : (runWords e 0 words).finish i t with
    | hung u => rw [hrun] at hok; cases hok
    | ended result j u =>
      rw [hrun] at hok
      cases result with
      | fault f => cases hok
      | exhausted => cases hok
      | ok failure =>
        have hresponse : concludeSequence (Text.join " " words) (failure, j) = ⟨xs, none⟩ :=
          Result.ok.inj (Outcome.ended.inj hok).1
        obtain ⟨hnone, hxs⟩ := of_concludeSequence hresponse
        obtain rfl : failure = none := hnone
        exact ⟨vs, i, t, j, u, rfl, hstack, hseeded k, of_runWords_none hrun, hxs⟩

/-- What is concluded from words that go on in the same way on the same stack. -/
theorem continues_concludeSequence {n : Nat} {text text' : String} {x y : Option FailedWord}
    {i j : Interp} (h : Option.Rel (FailedWord.Continues n) x y) (hs : i.stack = j.stack) :
    (concludeSequence text (x, i)).Continues n (concludeSequence text' (y, j)) := by
  cases h with
  | none =>
    unfold concludeSequence
    dsimp only
    rw [hs]
    cases Wire.encodeStack j.stack.toList with
    | ok xs => exact ⟨rfl, .none⟩
    | error f =>
      refine ⟨rfl, .some ⟨rfl, rfl, none, ?_, ?_⟩⟩
      · exact f.report_failedAt_none text'
      · exact f.report_failedAt_none text
  | @some w w' h =>
    refine ⟨rfl, .some ⟨Fault.errorType_eq_of_blur h.fault, Fault.message_eq_of_blur h.fault,
      some (w'.word, w'.index), ?_, ?_⟩⟩
    · exact w'.fault.report_failedAt text' w'.word w'.index
    · have hplace := w.fault.report_failedAt text w.word w.index
      rwa [← h.word, Option.map_some, ← h.index]

/-- A sequence is run as its second part on the stack that the first part has answered. -/
theorem DependOnStack.executeSequence_append {stores : List Store} {us vs : List String}
    (hd : r.DependOnStack e stores (us ++ vs)) (hr : ∀ s ∈ stores, r.Ready s) {s₁ s₂ s₃ : Store}
    (h₁ : s₁ ∈ stores) (h₂ : s₂ ∈ stores) (h₃ : s₃ ∈ stores) {xs : List Json} {zs : List Val}
    {k k₁ : Interp} {t₁ : Store}
    (hus : (r.executeSequence e ⟨us, stack⟩).finish k s₁ = .ended (.ok ⟨xs, none⟩) k₁ t₁)
    (hzs : Wire.encodeStack zs = .ok xs) (hwell : ∀ z ∈ zs, z.WellFormed) (k' : Interp) :
    ((r.executeSequence e ⟨us ++ vs, stack⟩).finish k' s₂).Meets
      (StackResponse.Continues us.length) ((r.executeSequence e ⟨vs, xs⟩).finish k' s₃) := by
  have hfirst : ∀ w ∈ us, w ∈ us ++ vs := fun w => List.mem_append_left vs
  have hsecond : ∀ w ∈ vs, w ∈ us ++ vs := fun w => List.mem_append_right us
  obtain ⟨stack₀, i₁, u₁, j₁, v₁, hdecode, hi₁, hseeded₁, hcompletes, hxs⟩ :=
    (hr s₁ h₁).of_executeSequence_ok hus
  -- the answer is the wire form of one stack only
  obtain rfl : j₁.stack.toList = zs := Wire.encodeStack_inj hxs hzs
  obtain ⟨i₂, u₂, hi₂, -, -, hseeded₂⟩ := (hr s₂ h₂).exists_seeded hdecode (us ++ vs)
  have hback : Wire.decodeStack "stack" (some (.arr xs)) = .ok j₁.stack.toList := by
    obtain ⟨xs', hxs', hback⟩ := Wire.decodeItems_encodeStack
      (Wire.areSerializable_of_encodeStack hxs) ((Wire.itemsWellFormed_iff _).mpr hwell)
    obtain rfl := Except.ok.inj (hxs.symm.trans hxs')
    exact hback "stack" 0
  obtain ⟨i₃, u₃, hi₃, -, -, hseeded₃⟩ := (hr s₃ h₃).exists_seeded hback vs
  rw [finish_executeSequence_seeded (hseeded₂ k'), finish_executeSequence_seeded (hseeded₃ k')]
  have hv₁ : r.Visits e stores (us ++ vs) i₁ u₁ := .start h₁ hseeded₁
  have hv₂ : r.Visits e stores (us ++ vs) i₂ u₂ := .start h₂ (hseeded₂ k')
  -- the first part ends in the second request as it has ended in the first one
  obtain ⟨j₂, v₂, hcompletes₂, hj₂⟩ := hd.completes hfirst hv₁ hv₂ (hi₁.trans hi₂.symm) hcompletes
  rw [finish_runWords_append hcompletes₂]
  have hj₃ : j₂.stack = i₃.stack := by rw [hi₃, hj₂, OperandStack.ofList_toList]
  have hmeets := hd.runWords hsecond (hv₂.completes hfirst hcompletes₂) (.start h₃ (hseeded₃ k')) hj₃
    (n := 0 + us.length) (m := 0) rfl
  exact hmeets.restoring.bind fun h hs => .ok (continues_concludeSequence h.1 h.2) hs

/-- Words that complete are answered with the stack that they leave. -/
theorem finish_executeSequence_completes {xs : List Json} {i j k : Interp} {t u : Store}
    (hseeded : (r.seeded stack).finish k (noteSequence s words) = .ended (.ok i) k t)
    (hdone : Completes e words i t j u) (hxs : Wire.encodeStack j.stack.toList = .ok xs) :
    (r.executeSequence e ⟨words, stack⟩).finish k s = .ended (.ok ⟨xs, none⟩) k u := by
  rw [finish_executeSequence_seeded hseeded, finish_runWords_completes hdone]
  show Outcome.ended (.ok (concludeSequence (Text.join " " words) (none, j))) k u = _
  unfold concludeSequence
  dsimp only
  rw [hxs]

/-- The first word that fails is reported, with the number of the words that have completed. -/
theorem finish_executeSequence_failing {done rest : List String} {word : String} {f : Fault}
    {i j j' k : Interp} {t u v : Store}
    (hseeded : (r.seeded stack).finish k (noteSequence s (done ++ word :: rest)) = .ended (.ok i) k t)
    (hdone : Completes e done i t j u)
    (hfails : (Wordstack.executeWord e word).finish j u = .ended (.fault f) j' v) :
    ∃ report, (r.executeSequence e ⟨done ++ word :: rest, stack⟩).finish k s =
        .ended (.ok ⟨[], some report⟩) k v ∧
      report.FailedAt (some (word, done.length)) ∧
      report.errorType = f.errorType ∧ report.message = f.message := by
  refine ⟨f.report [("word_sequence", Text.join " " (done ++ word :: rest)), ("failed_word", word),
    ("failed_index", toString done.length)], ?_, f.report_failedAt _ word _, rfl, rfl⟩
  rw [finish_executeSequence_seeded hseeded, finish_runWords_append hdone,
    finish_runWords_failing hfails, Nat.zero_add]
  rfl

/-! ## Words that are found -/

/-- What holds as long as names stand for the same words. -/
def lookupGuard (i : Interp) (s : Store) : Guard where
  interp j := j.scope = i.scope ∧ j.readers = i.readers ∧ j.pending = i.pending
  store t := t.modules = s.modules

theorem still_lookupGuard (i : Interp) (s : Store) : (lookupGuard i s).Still :=
  ⟨fun _ _ _ _ h => h, fun _ _ _ _ _ _ h => h⟩

theorem resolve_of_lookupGuard {i j : Interp} {t : Store} {name : String} {w : Word}
    (hj : (lookupGuard i s).interp j) (ht : (lookupGuard i s).store t)
    (h : i.resolve s name none = .ok w) : j.resolve t name none = .ok w := by
  obtain ⟨hscope, hreaders, -⟩ := hj
  have hmodules : t.modules = s.modules := ht
  unfold Interp.resolve Interp.literal? Interp.findWord at h ⊢
  rw [hscope, hreaders, hmodules]
  cases hliteral : i.readers.findSome? fun reader => reader name with
  | some v => rwa [hliteral] at h
  | none =>
    rw [hliteral] at h
    cases hfound : i.scope.findSome? fun m => findIn? s.modules m name with
    | some w' => simpa [hfound] using h
    | none => simp [hfound] at h

theorem finish_executeWord_found {i : Interp} {name : String} {w : Word} (hp : i.pending = [])
    (h : i.resolve s name none = .ok w) :
    (Wordstack.executeWord e name).finish i s = (dispatch e w none).finish i s :=
  (same_executeWord hp h).finish_eq.trans (finish_executeFound hp)

/-- Names depend on the stack only that stand for words whose code does, and which alter nothing. -/
theorem dependOnStack {stores : List Store} {names : List String} (hr : ∀ s ∈ stores, r.Ready s)
    (hnames : ∀ name ∈ names, ∃ w : Word, w.OnStack ∧ w.Asks Query.isStill ∧
      ∀ s ∈ stores, r.resolved? s name = some w) : r.DependOnStack e stores names := by
  -- everywhere in a request its names stand for what they stand for in the beginning
  have hfound : ∀ {i s}, r.Visits e stores names i s → i.pending = [] ∧
      ∀ name ∈ names, ∀ w, (∀ s ∈ stores, r.resolved? s name = some w) →
        i.resolve s name none = .ok w := fun {i s} h => by
    induction h with
    | @start s t stack i k k' message hs hseeded =>
      obtain ⟨i', t', hpending, hresolve, heq⟩ := (hr s hs).finish_seeded message stack
      rw [heq] at hseeded
      split at hseeded
      · cases hseeded
        exact ⟨hpending, fun name _ w hw => hresolve _ name w (hw s hs)⟩
      · cases hseeded
    | @next i j s t name _ hname hx ih =>
      obtain ⟨hp, hwords⟩ := ih
      obtain ⟨w, hw, hstill, hall⟩ := hnames name hname
      rw [finish_executeWord_found hp (hwords name hname w hall)] at hx
      obtain ⟨-, hj, ht⟩ := (Unaltered.keeps_dispatch (still_lookupGuard i s) hstill none).of_ok
        ⟨rfl, rfl, rfl⟩ rfl hx
      exact ⟨hj.2.2.trans hp, fun name hname w hall =>
        resolve_of_lookupGuard hj ht (hwords name hname w hall)⟩
  intro name hname i j s t hi hj hs
  obtain ⟨w, hw, -, hall⟩ := hnames name hname
  obtain ⟨hpi, hwi⟩ := hfound hi
  obtain ⟨hpj, hwj⟩ := hfound hj
  rw [finish_executeWord_found hpi (hwi name hname w hall),
    finish_executeWord_found hpj (hwj name hname w hall)]
  exact (Task.Meets.dispatch e e hw none none).finish s t hs

end Runtime

/-- Sequences compose. The runtime was made from any modules, and anything may have happened since.

A sequence of words whose effect depends on the operand stack only is answered like its second part
on the stack that the first part is answered with, if that stack holds what literals and decoding
make: with the same stack, or with the same failure of the same word, that many places later.

Whatever happens at the same time, requests to run words do not fail, and a response that reports a
failure has no stack. A sequence is ended by the first word that fails: it is named, with the number
of the words that have completed before it. -/
theorem sequences_compose {depth : Nat} {modules : List Nat} {zone : Option String}
    {maxAttempts : Option Binary64} {i₀ j₀ : Interp} {s₀ t₀ : Store} {r : Runtime}
    (hmodules : ∀ m ∈ modules, m < s₀.modules.size)
    (hstart : (Runtime.start (nested depth) modules zone maxAttempts).finish i₀ s₀ =
      .ended (.ok r) j₀ t₀) (e : Nested) :
    (∀ {s₁ s₂ s₃ : Store} {us vs : List String} {stack xs : List Json} {zs : List Val}
      {k k₁ : Interp} {t₁ : Store}, t₀.Later s₁ → t₀.Later s₂ → t₀.Later s₃ →
      r.DependOnStack e [s₁, s₂, s₃] (us ++ vs) →
      (r.executeSequence e ⟨us, stack⟩).finish k s₁ = .ended (.ok ⟨xs, none⟩) k₁ t₁ →
      Wire.encodeStack zs = .ok xs → (∀ z ∈ zs, z.WellFormed) → ∀ k' : Interp,
        ((r.executeSequence e ⟨us ++ vs, stack⟩).finish k' s₂).Meets
          (StackResponse.Continues us.length) ((r.executeSequence e ⟨vs, xs⟩).finish k' s₃)) ∧
    (∀ request i s, (r.executeWord e request i s).Gives StackResponse.EitherWay) ∧
    (∀ request i s, (r.executeSequence e request i s).Gives StackResponse.EitherWay) ∧
    ∀ {s u v t : Store} {done rest : List String} {word : String} {stack : List Json} {f : Fault}
      {i j j' k : Interp},
      (r.seeded stack).finish k (Runtime.noteSequence s (done ++ word :: rest)) =
        .ended (.ok i) k u →
      Runtime.Completes e done i u j v →
      (executeWord e word).finish j v = .ended (.fault f) j' t →
        ∃ report, (r.executeSequence e ⟨done ++ word :: rest, stack⟩).finish k s =
            .ended (.ok ⟨[], some report⟩) k t ∧
          report.FailedAt (some (word, done.length)) ∧
          report.errorType = f.errorType ∧ report.message = f.message := by
  have hready : ∀ {s}, t₀.Later s → r.Ready s := fun hlater =>
    (Runtime.ready_of_started hmodules hstart).mono hlater.size fun m _ => hlater.ready m
  refine ⟨fun {s₁ s₂ s₃} _ _ _ _ _ _ _ _ h₁ h₂ h₃ hd hus hzs hwell k' => ?_,
    Runtime.gives_executeWord, Runtime.gives_executeSequence,
    Runtime.finish_executeSequence_failing⟩
  have hall : ∀ s ∈ [s₁, s₂, s₃], r.Ready s := fun s hs => by
    simp only [List.mem_cons, List.not_mem_nil, or_false] at hs
    obtain rfl | rfl | rfl := hs
    · exact hready h₁
    · exact hready h₂
    · exact hready h₃
  exact hd.executeSequence_append hall (by simp) (by simp) (by simp) hus hzs hwell k'

/-! ## A sequence of words that make points in time -/

/-- A text on the wire. -/
def textJson (text : String) : Json := .obj [("string_value", .str text)]

/-- A point in time on the wire. -/
def instantJson (iso : String) : Json := .obj [("instant_value", .obj [("iso8601", .str iso)])]

theorem Word.makingInstants_still : makingInstants.Asks Query.isStill := by
  refine ⟨fun args _ => ?_, fun _ h => absurd h List.not_mem_nil⟩
  dsimp only
  split
  · trivial
  · trivial

section AtSequence

variable {r : Runtime} {s : Store} {iso : String}

theorem Runtime.Ready.exists_answerAt (h : r.Ready s)
    (hw : r.resolved? s "AT" = some .makingInstants) (e : Nested) (iso : String) (k : Interp) :
    ∃ u, (r.executeSequence e ⟨["AT"], [textJson iso]⟩).finish k s =
      .ended (.ok ⟨[instantJson iso], none⟩) k u := by
  have hdecode : Wire.decodeStack "stack" (some (.arr [textJson iso])) = .ok [.str iso] := rfl
  obtain ⟨i, t, hstack, hpending, hresolve, hseeded⟩ := h.exists_seeded hdecode ["AT"]
  obtain ⟨j, u, hj, hleft⟩ := exists_dispatchAt iso
  have hmeets := (Task.Meets.dispatch (nested 0) e Word.makingInstants_onStack none none).finish
    (i := .holding [.str iso]) {} t hstack.symm
  rw [show (dispatch (nested 0) .makingInstants none).finish (.holding [.str iso]) {} = _ from hj]
    at hmeets
  obtain ⟨⟨⟩, j', u', hend, -, hsame⟩ := hmeets.of_ok
  have hcompletes : Completes e ["AT"] i t j' u' :=
    .cons ((finish_executeWord_found hpending (hresolve "AT" _ hw)).trans hend) .nil
  refine ⟨u', finish_executeSequence_completes (hseeded k) hcompletes ?_⟩
  rw [hsame, hleft]
  rfl

/-- The word does not take points in time. -/
theorem Runtime.Ready.exists_refusedAt (h : r.Ready s)
    (hw : r.resolved? s "AT" = some .makingInstants) (e : Nested)
    (hiso : (Calendar.readTimestamp iso).isSome = true) (k : Interp) :
    ∃ report u, (r.executeSequence e ⟨["AT"], [instantJson iso]⟩).finish k s =
      .ended (.ok ⟨[], some report⟩) k u := by
  have hdecode : Wire.decodeStack "stack" (some (.arr [instantJson iso])) = .ok [.instant iso] := by
    have hwell : Val.ItemsWellFormed [.instant iso] :=
      (Wire.itemsWellFormed_iff _).mpr (List.forall_mem_singleton.mpr (by rwa [Val.WellFormed]))
    obtain ⟨xs, hxs, hback⟩ := Wire.decodeItems_encodeStack rfl hwell
    cases hxs
    exact hback "stack" 0
  obtain ⟨i, t, hstack, hpending, hresolve, hseeded⟩ := h.exists_seeded hdecode ["AT"]
  have hfails : ∃ f k u, (dispatch (nested 0) .makingInstants none).finish
      (.holding [.instant iso]) {} = .ended (.fault f) k u := ⟨_, _, _, rfl⟩
  obtain ⟨f, j, u, hj⟩ := hfails
  have hmeets := (Task.Meets.dispatch (nested 0) e Word.makingInstants_onStack none none).finish
    (i := .holding [.instant iso]) {} t hstack.symm
  rw [hj] at hmeets
  obtain ⟨g, j', u', hend, -, -⟩ := hmeets.of_fault
  have hnoted : (r.seeded [instantJson iso]).finish k (noteSequence s ([] ++ ["AT"])) =
      .ended (.ok i) k t := hseeded k
  obtain ⟨report, hreport, -⟩ := finish_executeSequence_failing hnoted .nil
    ((finish_executeWord_found hpending (hresolve "AT" _ hw)).trans hend)
  exact ⟨report, u', hreport⟩

/-- A stack that is not decoded is refused. -/
theorem Runtime.Ready.exists_refusedStack {f : Fault} {stack : List Json} (h : r.Ready s)
    (hdecode : Wire.decodeStack "stack" (some (.arr stack)) = .error f) (e : Nested)
    (words : List String) (k : Interp) :
    ∃ report u, (r.executeSequence e ⟨words, stack⟩).finish k s =
      .ended (.ok ⟨[], some report⟩) k u := by
  obtain ⟨i, t, -, -, hseeded⟩ :=
    h.finish_seeded ("ExecuteSequence [" ++ Text.join " " words ++ "]") stack
  refine ⟨f.report [("word_sequence", Text.join " " words)], t, ?_⟩
  rw [finish_executeSequence, noteSequence, hseeded, hdecode]
  rfl

/-- The effect of the word depends on the stack only. -/
theorem Runtime.Ready.dependOnStack_at (h : r.Ready s)
    (hw : r.resolved? s "AT" = some .makingInstants) (e : Nested) {names : List String}
    (hnames : ∀ name ∈ names, name = "AT") : r.DependOnStack e [s, s, s] names := by
  have hsame : ∀ t ∈ [s, s, s], t = s := fun t ht => by simpa using ht
  refine dependOnStack (fun t ht => hsame t ht ▸ h) fun name hname => ?_
  refine ⟨.makingInstants, Word.makingInstants_onStack, Word.makingInstants_still, fun t ht => ?_⟩
  rw [hsame t ht, hnames name hname, hw]

theorem Runtime.exists_resolvedAt : ∃ r j t,
    startMakingInstants.finish .host .makingInstants = .ended (.ok r) j t ∧ r.Ready t ∧
      r.resolved? t "AT" = some .makingInstants := by
  obtain ⟨r, j, t, p, c, hstart, -, hm, hw, honly, hliteral, -, -⟩ := Store.exists_makingInstants
  exact ⟨r, j, t, hstart, ready_of_started (by decide) hstart,
    resolved?_of_only hm hw honly hliteral⟩

end AtSequence

/-- The second of two words fails, in one request and in two. -/
theorem sequences_compose_instant : ∃ r j t,
    Runtime.startMakingInstants.finish .host .makingInstants = .ended (.ok r) j t ∧
    ∃ x y k k' u v,
      (r.executeSequence (nested 0) ⟨["AT", "AT"], [textJson "2024-01-02T03:04:05Z"]⟩).finish
        .host t = .ended (.ok ⟨[], some x⟩) k u ∧
      (r.executeSequence (nested 0) ⟨["AT"], [instantJson "2024-01-02T03:04:05Z"]⟩).finish
        .host t = .ended (.ok ⟨[], some y⟩) k' v ∧ x.Continues 1 y := by
  obtain ⟨r, j, t, hstart, hready, hword⟩ := Runtime.exists_resolvedAt
  have hlater : t.Later t := ⟨Nat.le_refl _, fun _ h => h⟩
  have hwell : (Calendar.readTimestamp "2024-01-02T03:04:05Z").isSome = true := by decide +kernel
  have hdepend : r.DependOnStack (nested 0) [t, t, t] (["AT"] ++ ["AT"]) :=
    hready.dependOnStack_at hword _ (by simp)
  obtain ⟨u, hfirst⟩ := hready.exists_answerAt hword (nested 0) "2024-01-02T03:04:05Z" .host
  obtain ⟨y, v, hrest⟩ := hready.exists_refusedAt hword (nested 0) hwell .host
  have hsent : Wire.encodeStack [.instant "2024-01-02T03:04:05Z"] =
      .ok [instantJson "2024-01-02T03:04:05Z"] := rfl
  have hmeets := (sequences_compose (by decide) hstart (nested 0)).1 hlater hlater hlater hdepend
    hfirst hsent (List.forall_mem_singleton.mpr (by rwa [Val.WellFormed])) .host
  rw [hrest] at hmeets
  generalize hwhole : (r.executeSequence (nested 0)
    ⟨["AT"] ++ ["AT"], [textJson "2024-01-02T03:04:05Z"]⟩).finish .host t = whole at hmeets
  cases hmeets with
  | @ok response _ k _ w _ h _ =>
    obtain ⟨stack, failure⟩ := response
    obtain ⟨rfl, hfailure⟩ := h
    cases hfailure with
    | some hcontinues => exact ⟨r, j, t, hstart, _, y, k, .host, w, v, hwhole, hrest, hcontinues⟩

/-- The answer of the first part may be one that is not accepted as a stack. -/
theorem sequences_may_not_compose :
    ¬ ∀ {depth : Nat} {modules : List Nat} {zone : Option String} {maxAttempts : Option Binary64}
      {i₀ j₀ : Interp} {s₀ t₀ : Store} {r : Runtime}, (∀ m ∈ modules, m < s₀.modules.size) →
      (Runtime.start (nested depth) modules zone maxAttempts).finish i₀ s₀ = .ended (.ok r) j₀ t₀ →
      ∀ (e : Nested) {us vs : List String} {stack xs : List Json} {k k₁ : Interp} {t₁ : Store},
        r.DependOnStack e [t₀, t₀, t₀] (us ++ vs) →
        (r.executeSequence e ⟨us, stack⟩).finish k t₀ = .ended (.ok ⟨xs, none⟩) k₁ t₁ →
        ((r.executeSequence e ⟨us ++ vs, stack⟩).finish k t₀).Meets
          (StackResponse.Continues us.length) ((r.executeSequence e ⟨vs, xs⟩).finish k t₀) := by
  intro hall
  obtain ⟨r, j, t, hstart, hready, hword⟩ := Runtime.exists_resolvedAt
  have hdepend : r.DependOnStack (nested 0) [t, t, t] (["AT"] ++ []) :=
    hready.dependOnStack_at hword _ (by simp)
  have hrefused :
      (Wire.decodeStack "stack" (some (.arr [instantJson "x"]))).toOption.isNone = true := by
    decide +kernel
  obtain ⟨u, hfirst⟩ := hready.exists_answerAt hword (nested 0) "x" .host
  cases hdecode : Wire.decodeStack "stack" (some (.arr [instantJson "x"])) with
  | ok vs => simp [hdecode, Except.toOption] at hrefused
  | error f =>
    obtain ⟨report, v, hrest⟩ := hready.exists_refusedStack hdecode (nested 0) [] .host
    have hmeets := hall (by decide) hstart (nested 0) hdepend hfirst
    rw [List.append_nil, hfirst, hrest] at hmeets
    cases hmeets with
    | ok h _ => cases h.stack

end Wordstack
