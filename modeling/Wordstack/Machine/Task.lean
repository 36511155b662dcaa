import Wordstack.Machine.Interp

/-!
# Tasks

A task works on an interpreter and the store. It ends, or it pauses so that other tasks can go on,
and resumes with the store as they left it; its interpreter is its own.

- **Results** (`Result`): a value, a fault, or the end of the nesting allowed, which is no fault and
  cannot be caught.
- **Steps** (`Step`) and **tasks** (`Task`), a monad; `Task.attempt` catches faults.
- **Calls** (`Task.call`, `Task.handOn`, `Task.callCode`): tasks that share the store take turns. A
  caller goes on a turn after the end of the task it called.
- **Alone** (`Task.finish`): a task that nobody else runs beside. Waiting for what only others could
  bring about leaves it hung; `Task.settle` counts that as a fault. `finish_pure`, `finish_bind`,
  `finish_attempt`, `finish_call`, `finish_handOn` and `finish_callCode` say that finishing goes
  through the operations of the monad, and that turns make no difference to a task alone.
- **Side by side** (`runAll`): tasks that take turns in the order in which their turns fall due.
-/

namespace Wordstack

/-- How a computation ends. -/
inductive Result (α : Type) where
  | ok (a : α)
  | fault (f : Fault)
  /-- Runs were nested deeper than the interpreter allows. -/
  | exhausted

/-- What a paused task waits for. -/
inductive Reason where
  /-- The others to have had their turn. -/
  | turn
  /-- Nobody else to have anything to do. -/
  | idle
  /-- A run of a memo word to be finished. -/
  | memoRun (cell run : Nat)
  /-- Nothing. -/
  | never
deriving DecidableEq

/-- What a paused task waits for, and the milliseconds after which it is woken anyway. -/
structure Wait where
  reason : Reason
  deadline : Option Binary64 := none

/-- Why a paused task is resumed. -/
inductive Wake where
  | ready
  | expired
deriving DecidableEq

/-- The state a task has come to: it has ended, or it is paused. -/
inductive Step (α : Type) where
  | done (r : Result α) (i : Interp) (s : Store)
  | pause (w : Wait) (s : Store) (resume : Wake → Store → Step α)

/-- A computation on an interpreter and the store. -/
def Task (α : Type) := Interp → Store → Step α

namespace Step

/-- Goes on with the value of a step. -/
def bind {α β : Type} (x : Step α) (f : α → Task β) : Step β :=
  match x with
  | done (.ok a) i s => f a i s
  | done (.fault e) i s => done (.fault e) i s
  | done .exhausted i s => done .exhausted i s
  | pause w s resume => pause w s fun wake s => (resume wake s).bind f

/-- Turns a fault into a value. -/
def attempt {α : Type} : Step α → Step (Except Fault α)
  | done (.ok a) i s => done (.ok (.ok a)) i s
  | done (.fault e) i s => done (.ok (.error e)) i s
  | done .exhausted i s => done .exhausted i s
  | pause w s resume => pause w s fun wake s => (resume wake s).attempt

/-- The earlier of two deadlines, the first one when they are equal. -/
def earlier (ms : Binary64) : Option Binary64 → Binary64
  | some inner => if inner.lt ms then inner else ms
  | none => ms

/-- Whether a deadline is up when the earlier of it and another one is. -/
def isFirst (ms : Binary64) : Option Binary64 → Bool
  | some inner => !inner.lt ms
  | none => true

/-- Gives a step a deadline; `i` is the interpreter to go on with when it is missed. -/
def within {α : Type} (ms : Binary64) (i : Interp) : Step α → Step (Option α)
  | done (.ok a) i s => done (.ok (some a)) i s
  | done (.fault e) i s => done (.fault e) i s
  | done .exhausted i s => done .exhausted i s
  | pause w s resume =>
    pause ⟨w.reason, some (earlier ms w.deadline)⟩ s fun wake s =>
      if wake = .expired ∧ isFirst ms w.deadline then done (.ok none) i s
      else (resume wake s).within ms i

/-- Gives the caller its own interpreter back. -/
def restoring {α : Type} (i : Interp) : Step α → Step (α × Interp)
  | done (.ok a) j s => done (.ok (a, j)) i s
  | done (.fault e) _ s => done (.fault e) i s
  | done .exhausted _ s => done .exhausted i s
  | pause w s resume => pause w s fun wake s => (resume wake s).restoring i

/-- Ends a step a turn later, if others share the store. -/
def later {α : Type} : Step α → Step α
  | done r i s =>
    if s.isShared then pause { reason := .turn } s fun _ s => done r i s else done r i s
  | pause w s resume => pause w s fun wake s => (resume wake s).later

/-- Ends a step a turn later, or two when it has ended already. -/
def handedOn {α : Type} : Step α → Step α
  | done r i s => (done r i s).later.later
  | x => x.later

/-- Ends a step a turn later, unless it has ended with a fault already. -/
def unlessRaised {α : Type} : Step α → Step α
  | done (.fault f) i s => done (.fault f) i s
  | x => x.later

end Step

namespace Task

instance : Monad Task where
  pure a := fun i s => .done (.ok a) i s
  bind x f := fun i s => (x i s).bind f

instance {α : Type} : Inhabited (Task α) := ⟨fun i s => .done .exhausted i s⟩

/-- The task that ends with a fault. -/
def throw {α : Type} (f : Fault) : Task α := fun i s => .done (.fault f) i s

/-- The task that is nested too deeply. -/
def exhausted {α : Type} : Task α := fun i s => .done .exhausted i s

/-- The value of a task, or its fault. -/
def attempt {α : Type} (x : Task α) : Task (Except Fault α) := fun i s => (x i s).attempt

/-- The value of an outcome, or its fault. -/
def lift {α : Type} : Except Fault α → Task α
  | .ok a => pure a
  | .error f => throw f

/-- A view of the interpreter and the store. -/
def view {α : Type} (f : Interp → Store → α) : Task α := fun i s => .done (.ok (f i s)) i s

/-- A change of the interpreter. -/
def update (f : Interp → Interp) : Task Unit := fun i s => .done (.ok ()) (f i) s

/-- A change of the store. -/
def updateStore (f : Store → Store) : Task Unit := fun i s => .done (.ok ()) i (f s)

/-- A change of the store with a result. -/
def ofStore {α : Type} (f : Store → α × Store) : Task α := fun i s =>
  let (a, s) := f s
  .done (.ok a) i s

/-- A change of the store with a result, or a fault that leaves the store alone. -/
def ofStore? {α : Type} (f : Store → Except Fault (α × Store)) : Task α := fun i s =>
  match f s with
  | .ok (a, s) => .done (.ok a) i s
  | .error e => .done (.fault e) i s

/-- A pause; the value says why it is over. -/
def wait (reason : Reason) : Task Wake := fun i s =>
  .pause { reason } s fun wake s => .done (.ok wake) i s

/-- A task that is called: the caller goes on a turn after its end. -/
def call {α : Type} (x : Task α) : Task α := fun i s => (x i s).later

/-- A task that hands on what another one ends with: it ends a turn after that one, and takes two
turns at least. -/
def handOn {α : Type} (x : Task α) : Task α := fun i s => (x i s).handedOn

/-- Code that is called. If it waits it is a task of its own; otherwise a fault that it raises is
the caller's at once. -/
def callCode {α : Type} (waits : Bool) (x : Task α) : Task α :=
  if waits then call x else fun i s => (x i s).unlessRaised

/-- Lets the others have a turn, if there are any. -/
def turn : Task Unit := call (pure ())

/-- The value of a task if it ends in time; zero or less is no deadline. -/
def within {α : Type} (ms : Binary64) (x : Task α) : Task (Option α) := fun i s =>
  if (0 : Binary64).lt ms then (x i s).within ms i
  else (x i s).bind fun a => pure (some a)

/-- Runs a task on another interpreter, which it gives back with the value. -/
def onOther {α : Type} (other : Interp) (x : Task α) : Task (α × Interp) := fun i s =>
  (x other s).restoring i

/-- Writes a log line. -/
def log (level : LogLevel) (scope message : String) : Task Unit :=
  updateStore fun s => s.log level scope message

end Task

/-! ## Tasks alone -/

/-- How a task ends that nobody else runs beside. -/
inductive Outcome (α : Type) where
  | ended (r : Result α) (i : Interp) (s : Store)
  /-- It waits for what never happens. -/
  | hung (s : Store)

namespace Outcome

/-- Goes on with the value of an outcome. -/
def bind {α β : Type} (x : Outcome α) (f : α → Interp → Store → Outcome β) : Outcome β :=
  match x with
  | ended (.ok a) i s => f a i s
  | ended (.fault e) i s => ended (.fault e) i s
  | ended .exhausted i s => ended .exhausted i s
  | hung s => hung s

/-- Turns a fault into a value. -/
def attempt {α : Type} : Outcome α → Outcome (Except Fault α)
  | ended (.ok a) i s => ended (.ok (.ok a)) i s
  | ended (.fault e) i s => ended (.ok (.error e)) i s
  | ended .exhausted i s => ended .exhausted i s
  | hung s => hung s

end Outcome

/-- Whether what a task waits for is there; `idle` says that nobody else has anything to do. -/
def Wait.isReady (w : Wait) (idle : Bool) (s : Store) : Bool :=
  match w.reason with
  | .turn => true
  | .idle => idle
  | .memoRun cell run => ((s.memo cell).outcome? run).isSome
  | .never => false

/-- The end of a step that is resumed whenever it pauses. -/
def Step.finish {α : Type} : Step α → Outcome α
  | .done r i s => .ended r i s
  | .pause w s resume =>
    if w.isReady true s then (resume .ready s).finish
    else if w.deadline.isSome then (resume .expired s).finish
    else .hung s

/-- The end of a task that nobody else runs beside. -/
def Task.finish {α : Type} (x : Task α) (i : Interp) (s : Store) : Outcome α := (x i s).finish

/-- The fault of a task that is nested too deeply. -/
def Fault.tooDeep : Fault := .host "RangeError" "Maximum call stack size exceeded"

/-- The fault of a task that waits for what never happens. -/
def Fault.stalled : Fault := .error "The task waits for what never happens"

/-- The value of a task that nobody else runs beside, or its fault. One that is nested too deeply
leaves no source text open. -/
def Task.settle {α : Type} (x : Task α) (i : Interp) (s : Store) :
    Except Fault α × Interp × Store :=
  match x.finish i s with
  | .ended (.ok a) i s => (.ok a, i, s)
  | .ended (.fault f) i s => (.error f, i, s)
  | .ended .exhausted i s => (.error .tooDeep, { i with inputs := [] }, s)
  | .hung s => (.error .stalled, i, s)

theorem Step.finish_bind {α β : Type} (x : Step α) (f : α → Task β) :
    (x.bind f).finish = x.finish.bind fun a i s => (f a).finish i s := by
  induction x with
  | done r i s => cases r <;> rfl
  | pause w s resume ih =>
    simp only [Step.bind, Step.finish]
    split
    · exact ih _ _
    · split
      · exact ih _ _
      · rfl

theorem Step.finish_attempt {α : Type} (x : Step α) : x.attempt.finish = x.finish.attempt := by
  induction x with
  | done r i s => cases r <;> rfl
  | pause w s resume ih =>
    simp only [Step.attempt, Step.finish]
    split
    · exact ih _ _
    · split
      · exact ih _ _
      · rfl

@[simp] theorem Task.finish_pure {α : Type} (a : α) (i : Interp) (s : Store) :
    (pure a : Task α).finish i s = .ended (.ok a) i s := rfl

@[simp] theorem Task.finish_bind {α β : Type} (x : Task α) (f : α → Task β) (i : Interp)
    (s : Store) :
    (x >>= f).finish i s = (x.finish i s).bind fun a i s => (f a).finish i s :=
  Step.finish_bind _ _

@[simp] theorem Task.finish_attempt {α : Type} (x : Task α) (i : Interp) (s : Store) :
    x.attempt.finish i s = (x.finish i s).attempt :=
  Step.finish_attempt _

theorem Step.finish_later {α : Type} (x : Step α) : x.later.finish = x.finish := by
  induction x with
  | done r i s =>
    unfold later
    split <;> simp [finish, Wait.isReady]
  | pause w s resume ih => simp [later, finish, ih]

theorem Step.finish_handedOn {α : Type} (x : Step α) : x.handedOn.finish = x.finish := by
  cases x with
  | done r i s => rw [handedOn, finish_later, finish_later]
  | pause w s resume => exact finish_later _

theorem Step.finish_unlessRaised {α : Type} (x : Step α) : x.unlessRaised.finish = x.finish := by
  unfold unlessRaised
  split
  · rfl
  · exact finish_later _

@[simp] theorem Task.finish_call {α : Type} (x : Task α) (i : Interp) (s : Store) :
    x.call.finish i s = x.finish i s :=
  Step.finish_later _

@[simp] theorem Task.finish_handOn {α : Type} (x : Task α) (i : Interp) (s : Store) :
    x.handOn.finish i s = x.finish i s :=
  Step.finish_handedOn _

@[simp] theorem Task.finish_callCode {α : Type} (waits : Bool) (x : Task α) (i : Interp)
    (s : Store) : (x.callCode waits).finish i s = x.finish i s := by
  cases waits with
  | true => exact Step.finish_later _
  | false => exact Step.finish_unlessRaised _

/-! ## Tasks side by side -/

/-- The store as a step left it. -/
def Step.store {α : Type} : Step α → Store
  | .done _ _ s => s
  | .pause _ s _ => s

/-- Goes on with a paused step. -/
def Step.wake {α : Type} (wake : Wake) (s : Store) : Step α → Step α
  | .done r i s' => .done r i s'
  | .pause _ _ resume => resume wake s

/-- What a step waits for, if it is paused. -/
def Step.wait? {α : Type} : Step α → Option Wait
  | .done .. => none
  | .pause w _ _ => some w

/-- Tasks that take turns. -/
structure Turns (α : Type) where
  /-- What each task has come to. -/
  steps : Array (Step α) := #[]
  /-- The tasks whose turn is due, in order. -/
  due : List Nat := []
  /-- The other paused tasks, in the order in which they paused. -/
  waiting : List Nat := []

namespace Turns

/-- What a task waits for, if it is paused. -/
def wait? {α : Type} (t : Turns α) (k : Nat) : Option Wait := t.steps[k]?.bind Step.wait?

/-- Makes the turns of all tasks due that wait for what is there. -/
def rouse {α : Type} (t : Turns α) (idle : Bool) (s : Store) : Turns α :=
  let isReady := fun k => (t.wait? k).any fun w => w.isReady idle s
  { t with
    due := t.due ++ t.waiting.filter isReady
    waiting := t.waiting.filter fun k => !isReady k }

/-- Notes the step that a task has come to. The turns of those that waited for what it did fall due
after its own. -/
def note {α : Type} (t : Turns α) (k : Nat) (x : Step α) : Turns α :=
  let t := { t with steps := t.steps.setIfInBounds k x }
  let t := match x.wait? with
    | none => t
    | some w =>
      if w.reason = Reason.turn then { t with due := t.due ++ [k] }
      else { t with waiting := t.waiting ++ [k] }
  t.rouse false x.store

/-- Starts one more task. -/
def start {α : Type} (t : Turns α) (x : Step α) : Turns α :=
  { t with steps := t.steps.push x }.note t.steps.size x

/-- Takes turns until no task can go on, at most `bound` times. When no turn is due, those who
waited for that go on; when there are none, the first of those whom a deadline wakes. -/
def takeAll {α : Type} (bound : Nat) (t : Turns α) (s : Store) : Turns α × Store :=
  match bound with
  | 0 => (t, s)
  | bound + 1 =>
    let t := t.rouse t.due.isEmpty s
    let goOn := fun (t : Turns α) (k : Nat) (wake : Wake) =>
      match t.steps[k]? with
      | some x =>
        let x := x.wake wake s
        takeAll bound (t.note k x) x.store
      | none => (t, s)
    match t.due with
    | k :: due => goOn { t with due } k .ready
    | [] =>
      match t.waiting.find? fun k => (t.wait? k).any fun w => w.deadline.isSome with
      | some k => goOn { t with waiting := t.waiting.filter (· != k) } k .expired
      | none => (t, s)
end Turns

/-- How often tasks side by side take turns at most. -/
def maxTurns : Nat := 1000000000

/-- Starts tasks in order, each on its interpreter, and lets them take turns until none can go
on. -/
def runAll {α : Type} (tasks : List (Interp × Task α)) (s : Store) : List (Step α) × Store :=
  let (turns, s) := tasks.foldl (fun (t, s) (i, x) =>
    let x := x i s
    (Turns.start t x, x.store)) ({}, { s with isShared := true })
  let (turns, s) := turns.takeAll maxTurns s
  (turns.steps.toList, { s with isShared := false })

/-- The values of steps that have all ended, or the first fault. -/
def Step.values {α : Type} : List (Step α) → Except Fault (List α)
  | [] => .ok []
  | .done (.ok a) _ _ :: rest => (values rest).map (a :: ·)
  | .done (.fault f) _ _ :: _ => .error f
  | .done .exhausted _ _ :: _ => .error .tooDeep
  | .pause .. :: _ => .error .stalled

end Wordstack
