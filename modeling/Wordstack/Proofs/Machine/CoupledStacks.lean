import Wordstack.Proofs.Machine.Coupling
import Wordstack.Proofs.Machine.Ends
import Wordstack.Proofs.Machine.OnStack
import Wordstack.Proofs.Word.Blind

/-!
# Coupled stacks

What code does with the operand stack, the brackets and its faults ends in the same way wherever the
stacks are the same but for identities, whatever else is to hold between the two sides.

- **Couplings of stacks** (`Coupling.OnStacks`): what has to be passed on.
- **Primitive tasks** (`Coupling.OnStacks.push`, `Coupling.OnStacks.popN`, …), **queries**
  (`Coupling.OnStacks.answer`) and **brackets** (`Coupling.OnStacks.closeArray`).
- **Code** (`Coupling.Answers`): as far as it asks queries that are answered in the same way
  (`Coupling.Answers.perform`, `Coupling.Answers.guarded`,
  `Coupling.Answers.callNative`): one lemma for each task, in the order of the definitions.
-/

namespace Wordstack

namespace Coupling

/-- Stacks are the same but for identities, brackets, places and texts in progress are the same, and
this is all that stacks, brackets, places and the console have to do with what is to hold. -/
structure OnStacks (C : Coupling) (P : Pairing) : Prop where
  stack : ∀ {i j : Interp}, C.interps i j → Val.AllPaired P i.stack.values j.stack.values
  marks : ∀ {i j : Interp}, C.interps i j → i.marks = j.marks
  call : ∀ {i j : Interp}, C.interps i j → i.call = j.call
  topInput : ∀ {i j : Interp}, C.interps i j → i.topInput = j.topInput
  withStack : ∀ {i j : Interp} {stack stack' : OperandStack}, C.interps i j →
    Val.AllPaired P stack.values stack'.values →
    C.interps { i with stack } { j with stack := stack' }
  withMarks : ∀ {i j : Interp} (marks : List Nat), C.interps i j →
    C.interps { i with marks } { j with marks }
  dispatching : ∀ {i j : Interp} {v w : Word} (l : Option Location), C.interps i j →
    v.isProfiled = w.isProfiled → v.qualifiedName = w.qualifiedName →
    C.interps (i.dispatching v l) (j.dispatching w l)
  log : ∀ {s t : Store} (level : LogLevel) (scope message : String), C.stores s t →
    C.stores (s.log level scope message) (t.log level scope message)
  print : ∀ {s t : Store} (line : String), C.stores s t → C.stores (s.print line) (t.print line)

namespace OnStacks

variable {C : Coupling} {P : Pairing} (h : C.OnStacks P)

include h

theorem underflow {i j : Interp} (hi : C.interps i j) : i.underflow = j.underflow := by
  rw [Interp.underflow, Interp.underflow, h.topInput hi, h.call hi]

theorem top? {i j : Interp} (hi : C.interps i j) :
    Option.Rel (Val.Paired P) i.stack.top? j.stack.top? := by
  have hstack := h.stack hi
  unfold OperandStack.top?
  generalize i.stack.values = a, j.stack.values = b at hstack
  cases hstack with
  | nil => exact .none
  | cons hv _ => exact .some hv

/-! ## Primitive tasks -/

theorem push {v w : Val} (hv : v.Paired P w) :
    Task.Coupled C (· = ·) (Task.push v) (Task.push w) :=
  .update fun hi => h.withStack hi (.cons hv (h.stack hi))

theorem setStack {vs ws : List Val} (hvs : Val.AllPaired P vs ws) :
    Task.Coupled C (· = ·) (Task.setStack vs) (Task.setStack ws) :=
  .update fun hi => h.withStack hi (List.rel_reverse hvs)

theorem toList : Task.Coupled C (Val.AllPaired P) Task.stack Task.stack :=
  .view fun hi _ => List.rel_reverse (h.stack hi)

theorem pop : Task.Coupled C (Val.Paired P) Task.pop Task.pop := by
  refine ⟨fun {i j s t} hi hs => ?_⟩
  have hstack := h.stack hi
  unfold Task.finish Task.pop OperandStack.pop?
  rw [h.underflow hi]
  generalize i.stack.values = a, j.stack.values = b at hstack
  cases hstack with
  | nil => exact .fault _ hi hs
  | cons hv hvs => exact .ok hv (h.withStack hi hvs) hs

theorem popN (n : Nat) : Task.Coupled C (Val.AllPaired P) (Task.popN n) (Task.popN n) := by
  refine ⟨fun {i j s t} hi hs => ?_⟩
  unfold Task.finish Task.popN OperandStack.popN? OperandStack.depth
  rw [h.underflow hi, (h.stack hi).length_eq]
  split
  · rename_i hpop
    split at hpop
    · cases hpop
    · rename_i hdepth
      rw [if_neg hdepth]
      cases hpop
      exact .ok (List.rel_reverse (List.forall₂_take n (h.stack hi)))
        (h.withStack hi (List.forall₂_drop n (h.stack hi))) hs
  · rename_i hpop
    split at hpop
    · rename_i hdepth
      rw [if_pos hdepth]
      exact .fault _ hi hs
    · cases hpop

theorem takeOptions :
    Task.Coupled C (fun o o' => Val.EntriesPaired P o.entries o'.entries) takeOptions
      takeOptions := by
  refine ⟨fun {i j s t} hi hs => ?_⟩
  have hstack := h.stack hi
  unfold Task.finish Wordstack.takeOptions
  generalize i.stack.values = a, j.stack.values = b at hstack
  cases hstack with
  | nil => exact .ok .nil hi hs
  | cons hv hvs =>
    cases hv with
    | options _ he => exact .ok he (h.withStack hi hvs) hs
    | _ => exact .ok .nil hi hs

theorem noteDispatch {v w : Word} (hp : v.isProfiled = w.isProfiled)
    (hq : v.qualifiedName = w.qualifiedName) (l : Option Location) :
    Task.Coupled C (· = ·) (noteDispatch v l) (noteDispatch w l) :=
  .update fun hi => h.dispatching l hi hp hq

/-! ## Queries -/

theorem peek (e : Nested) :
    Task.Coupled C (Val.Paired P) (answer e .peek) (answer e .peek) := by
  refine ⟨fun {i j s t} hi hs => ?_⟩
  have htop := h.top? hi
  simp only [Task.finish, answer, h.underflow hi]
  generalize i.stack.top? = a, j.stack.top? = b at htop
  cases htop with
  | none => exact .fault _ hi hs
  | some hv => exact .ok hv hi hs

/-- Queries about the stack are answered in the same way if they are the same but for identities. -/
theorem answer (e : Nested) {q q' : Query} {S : q.Reply → q'.Reply → Prop}
    (hq : Query.Paired P q q' S) (honStack : q.isOnStack = true) :
    Task.Coupled C S (answer e q) (answer e q') := by
  cases hq with
  | push hv => exact (h.push hv).mono fun _ _ _ => ⟨⟩
  | setStack hvs => exact (h.setStack hvs).mono fun _ _ _ => ⟨⟩
  | fetch _ | store _ _ => cases honStack
  | plain hplain =>
    cases q with
    | push | setStack => cases hplain
    | pop => exact h.pop
    | peek => exact h.peek e
    | popN n => exact h.popN n
    | top => exact .view fun hi _ => h.top? hi
    | stack => exact h.toList
    | callLocation => exact .view fun hi _ => h.call hi
    | topInput => exact .view fun hi _ => h.topInput hi
    | print line => exact .updateStore fun hs => h.print line hs
    | turn => exact .turn
    | never => exact Task.Coupled.never.bind fun _ _ _ => .pure rfl
    | _ => cases honStack

/-! ## Brackets -/

theorem openArray : Task.Coupled C (· = ·)
    (Task.update fun i => { i with marks := i.stack.depth :: i.marks })
    (Task.update fun i => { i with marks := i.stack.depth :: i.marks }) := by
  refine .update fun {i j} hi => ?_
  have hdepth : i.stack.depth = j.stack.depth := (h.stack hi).length_eq
  rw [hdepth, h.marks hi]
  exact h.withMarks _ hi

theorem closeArray : Task.Coupled C (· = ·) closeArray closeArray := by
  unfold Wordstack.closeArray
  refine Task.Coupled.interp.bind fun i j (hi : C.interps i j) => ?_
  rw [h.marks hi, h.topInput hi, h.call hi]
  split
  · exact .throw _
  rename_i mark marks _
  refine Task.Coupled.bind (R := (· = ·)) (.update fun hi => h.withMarks marks hi) fun _ _ _ => ?_
  unfold OperandStack.popAbove OperandStack.depth
  rw [(h.stack hi).length_eq, h.underflow hi]
  split
  · exact .throw _
  · refine .update fun hj => h.withStack hj (.cons (.array ?_) ?_)
    · exact List.rel_reverse (List.forall₂_take _ (h.stack hi))
    · exact List.forall₂_drop _ (h.stack hi)

end OnStacks

/-! ## Native code -/

/-- Stacks are the same but for identities, and answers to queries of a kind end in the same way if
the queries are. -/
structure Answers (C : Coupling) (P : Pairing) (e : Nested) (p : Query → Bool) : Prop
    extends OnStacks C P where
  answer : ∀ {q q' : Query} {S : q.Reply → q'.Reply → Prop}, p q = true → Query.Paired P q q' S →
    Task.Coupled C S (answer e q) (answer e q')

namespace Answers

variable {C : Coupling} {P : Pairing} {e : Nested} {p : Query → Bool} (h : C.Answers P e p)

include h

theorem perform {α β : Type} {R : α → β → Prop} {x : Native α} {y : Native β}
    (hxy : x.Paired P R y) (hx : x.Asks p) :
    Task.Coupled C R (perform e x) (perform e y) := by
  induction hxy with
  | done h => exact .pure h
  | fail f => exact .throw f
  | ask hq _ ih => exact (h.answer hx.1 hq).bind fun r r' hr => ih r r' hr (hx.2 r)

/-! ## Failures -/

theorem tryHandlers (name : String) (f : Fault) {handlers : List Handler}
    (hh : ∀ k ∈ handlers, Handler.Uniform k ∧ Handler.Asks p k) :
    Task.Coupled C (· = ·) (tryHandlers e name f handlers) (tryHandlers e name f handlers) := by
  induction handlers with
  | nil => exact .pure rfl
  | cons k rest ih =>
    obtain ⟨⟨huniform, hasks⟩, hrest⟩ := List.forall_mem_cons.mp hh
    unfold Wordstack.tryHandlers
    refine ((h.perform (huniform f P) (hasks f)).callCode false).attempt.bind
      fun outcome outcome' houtcome => ?_
    cases houtcome with
    | ok => exact .pure rfl
    | error f' =>
      exact Task.Coupled.bind (R := (· = ·)) (.updateStore fun hs => h.log _ _ _ hs)
        fun _ _ _ => ih hrest

theorem recover {label label' : WordLabel} (hname : label.name = label'.name)
    (hhome : label.home = label'.home) {handlers : List Handler}
    (hh : ∀ k ∈ handlers, Handler.Uniform k ∧ Handler.Asks p k) (f : Fault) :
    Task.Coupled C (· = ·) (recover e label handlers f) (recover e label' handlers f) := by
  unfold Wordstack.recover
  rw [hname, hhome]
  split
  · exact .throw f
  refine (h.tryHandlers _ f hh).call.bind fun handled _ h' => h' ▸ ?_
  split
  · exact .pure rfl
  split
  · exact .throw f
  · exact Task.Coupled.bind (R := (· = ·)) (.view fun hi _ => h.call hi) fun call _ h' =>
      h' ▸ .throw _

theorem guarded {label label' : WordLabel} (hname : label.name = label'.name)
    (hhome : label.home = label'.home) {handlers : List Handler}
    (hh : ∀ k ∈ handlers, Handler.Uniform k ∧ Handler.Asks p k) {x y : Task Unit}
    (hxy : Task.Coupled C (fun _ _ => True) x y) :
    Task.Coupled C (· = ·) (guarded e label handlers x) (guarded e label' handlers y) := by
  unfold Wordstack.guarded
  refine hxy.attempt.bind fun outcome outcome' houtcome => ?_
  cases houtcome with
  | ok => exact .pure rfl
  | error f => exact (h.recover hname hhome hh f).call

/-! ## Words -/

theorem callNative (inputs : Nat) (hasOptions waits : Bool)
    {code : List Val → Options → Native (Option Val)} (hcode : Native.UniformOn code)
    (hasks : ∀ args options, (code args options).Asks p) :
    Task.Coupled C (· = ·) (callNative e inputs hasOptions waits code)
      (callNative e inputs hasOptions waits code) := by
  have hrest : ∀ options options' : Options,
      Val.EntriesPaired P options.entries options'.entries → Task.Coupled C (· = ·)
        (do
          let args ← Task.popN inputs
          let result ← Task.callCode waits (Wordstack.perform e (code args options))
          Task.pushSome result)
        (do
          let args ← Task.popN inputs
          let result ← Task.callCode waits (Wordstack.perform e (code args options'))
          Task.pushSome result) := by
    intro options options' hoptions
    refine (h.popN inputs).bind fun args args' hargs => ?_
    have hpaired := hcode P args args' options options' hargs hoptions
    refine ((h.perform hpaired (hasks args options)).callCode waits).bind
      fun result result' hresult => ?_
    cases hresult with
    | some hv => exact h.push hv
    | none => exact .pure rfl
  unfold Wordstack.callNative
  split
  · exact h.takeOptions.bind hrest
  · exact hrest .empty .empty .nil

end Answers

end Coupling

end Wordstack
