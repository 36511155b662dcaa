import Wordstack.Proofs.Modules.Pending
import Wordstack.Proofs.Modules.SourceLog

/-!
# The same with a record

A task that is done by a machine, and the same task done by one that keeps a record, end in the same
way, and what the record says is right.

- **Right records** (`Logged`): they are in order, and the modules that are ready are those that
  were from the start and those whose source was run to its end.
- **Operations on the store** (`Store.Unrecorded`): they do not see the record, and make no module
  ready.
- **Watches** (`Watch`): what is to hold of the interpreter, and when the record is to be right.
- **Steps** (`Step.Recorded`) and **tasks** (`Task.Recorded`): the same without and with a record,
  with one lemma for each operation of the monad.
- **Sources** (`Step.RanSource`): the run of a module's source, and its notes.
- **Ends** (`Step.Recorded.finish`).
-/

namespace Wordstack

/-! ## Right records -/

/-- What a record says is right of a store, where the modules in `ready` are ready from the start
and the sources of those in `busy` are being run. Runtimes that can be reached serve modules that
are ready from the start, and modules that are not there yet will be ready. -/
structure Logged (ready : Nat → Prop) (busy : List Nat) (s : Store) (record : List SentRequest) :
    Prop where
  served : ∀ p ∈ s.endpoints, ∀ e ∈ p.runtime.registry.entries, ready e.2
  new : ∀ m, s.modules.size ≤ m → ready m
  orderly : Orderly ready (eventsOf record) busy
  ready : ∀ m, (s.module m).isReady = true ↔ ready m ∨ .completed m ∈ eventsOf record

namespace Logged

variable {ready : Nat → Prop} {busy : List Nat} {s : Store} {record : List SentRequest} {m : Nat}

theorem begin (h : Logged ready busy s record) (hbusy : m ∉ busy)
    (hm : (s.module m).isReady = false) :
    Logged ready (m :: busy) s ((SourceEvent.begun m).note :: record) := by
  have hnot : ¬(ready m ∨ .completed m ∈ eventsOf record) := by rw [← h.ready m, hm]; nofun
  obtain ⟨hready, hdone⟩ := not_or.mp hnot
  refine ⟨h.served, h.new, ?_, fun n => ?_⟩
  · rw [eventsOf_note]
    exact .begun h.orderly hbusy hready hdone
  · rw [eventsOf_note]
    simpa using h.ready n

/-- A module whose source was run to its end becomes ready. -/
theorem complete (h : Logged ready (m :: busy) s record) :
    Logged ready busy (s.updateModule m fun x => { x with isReady := true })
      ((SourceEvent.completed m).note :: record) := by
  obtain ⟨hready, hdone⟩ := h.orderly.of_mem_busy List.mem_cons_self
  have hsize : m < s.modules.size := by
    by_contra hle
    exact hready (h.new m (Nat.le_of_not_lt hle))
  have hnew : ∀ n, (s.updateModule m fun x => { x with isReady := true }).modules.size ≤ n →
      ready n := by
    intro n hn
    rw [Store.updateModule, Array.size_modify] at hn
    exact h.new n hn
  refine ⟨h.served, hnew, ?_, fun n => ?_⟩
  · rw [eventsOf_note]
    exact .completed h.orderly
  · rw [eventsOf_note, Store.module_updateModule]
    by_cases hn : n = m
    · simp [hn, hsize]
    · rw [if_neg fun hc => hn hc.1]
      simpa [hn] using h.ready n

theorem fail (h : Logged ready (m :: busy) s record) :
    Logged ready busy s ((SourceEvent.failed m).note :: record) := by
  refine ⟨h.served, h.new, ?_, fun n => ?_⟩
  · rw [eventsOf_note]
    exact .failed h.orderly
  · rw [eventsOf_note]
    simpa using h.ready n

end Logged

/-! ## Operations on the store -/

namespace Store

/-- A change that does not see the requests sent, takes no module away and makes none ready. -/
structure Unrecorded (f : Store → Store) : Prop where
  resent : ∀ s l, f (s.resent l) = (f s).resent l
  size : ∀ s, s.modules.size ≤ (f s).modules.size
  ready : ∀ s m, ((f s).module m).isReady = (s.module m).isReady
  endpoints : ∀ s, (f s).endpoints = s.endpoints

namespace Unrecorded

variable {f g : Store → Store}

/-- A change that has nothing to do with modules. -/
theorem aside (hresent : ∀ s l, f (s.resent l) = (f s).resent l)
    (hmodules : ∀ s, (f s).modules = s.modules) (hendpoints : ∀ s, (f s).endpoints = s.endpoints) :
    Unrecorded f where
  resent := hresent
  size s := Nat.le_of_eq (congrArg Array.size (hmodules s)).symm
  ready s m := by rw [Store.module, Store.module, hmodules]
  endpoints := hendpoints

theorem id : Unrecorded fun s => s := aside (fun _ _ => rfl) (fun _ => rfl) fun _ => rfl

theorem comp (hg : Unrecorded g) (hf : Unrecorded f) : Unrecorded fun s => g (f s) where
  resent s l := by rw [hf.resent, hg.resent]
  size s := Nat.le_trans (hf.size s) (hg.size _)
  ready s m := (hg.ready _ m).trans (hf.ready s m)
  endpoints s := (hg.endpoints _).trans (hf.endpoints s)

/-- A change that depends on what the store holds besides the requests sent. -/
theorem reading {β : Type} {F : β → Store → Store} (look : Store → β)
    (hlook : ∀ s l, look (s.resent l) = look s) (h : ∀ b, Unrecorded (F b)) :
    Unrecorded fun s => F (look s) s where
  resent s l := by rw [hlook, (h _).resent]
  size s := (h _).size s
  ready s m := (h _).ready s m
  endpoints s := (h _).endpoints s

theorem foldl {β : Type} {F : Store → β → Store} (h : ∀ b, Unrecorded fun s => F s b)
    (bs : List β) : Unrecorded fun s => bs.foldl F s := by
  induction bs with
  | nil => exact id
  | cons b bs ih => exact ih.comp (h b)

theorem updateModule (m : Nat) {f : Module → Module} (hf : ∀ x, (f x).isReady = x.isReady) :
    Unrecorded fun s => s.updateModule m f where
  resent _ _ := rfl
  size _ := Nat.le_of_eq (Array.size_modify ..).symm
  ready s n := isReady_updateModule hf s m n
  endpoints _ := rfl

/-- A new module without a source is ready, like one that is not there. -/
theorem addModule {x : Module} (hx : x.isReady = true) : Unrecorded fun s => (s.addModule x).2 where
  resent _ _ := rfl
  size s := by
    rw [Store.addModule, Array.size_push]
    exact Nat.le_succ _
  ready s n := by
    rw [module_addModule]
    split
    · rename_i hn
      rw [hn, module_of_size_le (Nat.le_refl _), hx]
      rfl
    · rfl
  endpoints _ := rfl

theorem addWord (m : Nat) (w : Word) : Unrecorded fun s => s.addWord m w := by
  have hidentity : Unrecorded fun s => { s with nextId := s.nextId + 1 } :=
    aside (fun _ _ => rfl) (fun _ => rfl) fun _ => rfl
  exact reading Store.nextId (fun _ _ => rfl) fun id =>
    (updateModule m (f := fun x => x.addWord id w) fun _ => rfl).comp hidentity

theorem addMemoWords (m : Nat) (w : Word) : Unrecorded fun s => s.addMemoWords m w := by
  have hpush : Unrecorded fun s => { s with memos := s.memos.push {} } :=
    aside (fun _ _ => rfl) (fun _ => rfl) fun _ => rfl
  exact reading (fun s => s.memos.size) (fun _ _ => rfl) fun cell =>
    (((addWord m (.memoReload { name := w.name ++ "!@" } cell w)).comp
      (addWord m (.memoRefresh { name := w.name ++ "!" } cell w))).comp
        (addWord m (.memo { name := w.name, location := w.label.location } cell w))).comp hpush

theorem setMemo (cell : Nat) (f : Memo → Memo) :
    Unrecorded fun s => s.setMemo cell (f (s.memo cell)) :=
  aside (fun _ _ => rfl) (fun _ => rfl) fun _ => rfl

theorem variableCell (m : Nat) (name : String) (v : Val) :
    Unrecorded fun s => (s.variableCell m name v).2 := by
  have hpush : Unrecorded fun s => (s.addCell v).2 :=
    aside (fun _ _ => rfl) (fun _ => rfl) fun _ => rfl
  have hadd : Unrecorded fun s =>
      (s.addCell v).2.updateModule m fun x => x.addVariable name s.cells.size :=
    reading (fun s => s.cells.size) (fun _ _ => rfl) fun cell =>
      (updateModule m (f := fun x => x.addVariable name cell) fun _ => rfl).comp hpush
  refine ⟨fun s l => ?_, fun s => ?_, fun s n => ?_, fun s => ?_⟩
  · unfold Store.variableCell
    rw [show (s.resent l).module m = s.module m from rfl]
    split <;> rfl
  · unfold Store.variableCell
    split
    · exact Nat.le_refl _
    · exact hadd.size s
  · unfold Store.variableCell
    split
    · rfl
    · exact hadd.ready s n
  · unfold Store.variableCell
    split <;> rfl

theorem connect (pool : Nat) (name address : String) (timeout : Binary64) :
    Unrecorded fun s => s.connect pool name address timeout := by
  refine aside (fun s l => ?_) (fun s => ?_) fun s => ?_
  · unfold Store.connect
    rw [show (s.resent l).pool pool = s.pool pool from rfl]
    split <;> rfl
  · unfold Store.connect
    split <;> rfl
  · unfold Store.connect
    split <;> rfl

theorem disconnect (pool : Nat) (name : String) : Unrecorded fun s => s.disconnect pool name := by
  refine aside (fun s l => ?_) (fun s => ?_) fun s => ?_
  · unfold Store.disconnect
    rw [show (s.resent l).pool pool = s.pool pool from rfl]
    split <;> rfl
  · unfold Store.disconnect
    split <;> rfl
  · unfold Store.disconnect
    split <;> rfl

theorem log (level : LogLevel) (scope message : String) :
    Unrecorded fun s => s.log level scope message := by
  refine aside (fun s l => ?_) (fun s => ?_) fun s => ?_
  · unfold Store.log
    rw [show (s.resent l).level = s.level from rfl]
    split <;> rfl
  · unfold Store.log
    split <;> rfl
  · unfold Store.log
    split <;> rfl

theorem addRemoteWords (m client : Nat) (runtime : String) (doc : ModuleDoc) :
    Unrecorded fun s => s.addRemoteWords m client runtime doc := by
  have hword : ∀ (name : String) (w : WordDoc), Unrecorded fun s =>
      (s.addWord m (remoteWord client runtime name w)).updateModule m fun x =>
        x.addExports [w.name] := fun name w =>
    (updateModule m (f := fun x => x.addExports [w.name]) fun _ => rfl).comp (addWord m _)
  have hdescribe : Unrecorded fun s =>
      s.updateModule m fun x => { x with description := doc.description } :=
    updateModule m fun _ => rfl
  exact reading (fun s => (s.module m).name) (fun _ _ => rfl) fun name =>
    hdescribe.comp (foldl (hword name) doc.words)

end Unrecorded

end Store

theorem Logged.step {ready : Nat → Prop} {busy : List Nat} {s : Store} {record : List SentRequest}
    {f : Store → Store} (h : Logged ready busy s record) (hf : Store.Unrecorded f) :
    Logged ready busy (f s) record where
  served := by rw [hf.endpoints]; exact h.served
  new m hm := h.new m (Nat.le_trans (hf.size s) hm)
  orderly := h.orderly
  ready m := by rw [hf.ready]; exact h.ready m

/-! ## Watches -/

/-- What interpreters find modules by, and the modules that they are initializing. -/
structure Interp.Bearings where
  registry : Registry
  registered : List (String × Nat)
  pending : List Nat
  initializing : List Nat

/-- The bearings of an interpreter. -/
def Interp.bearings (i : Interp) : Bearings :=
  ⟨i.registry, i.registered, i.pending, i.initializing⟩

/-- What is watched while the same is done without and with a record. -/
structure Watch where
  /-- The modules whose sources are being run. -/
  busy : List Nat
  /-- What holds of the interpreter. -/
  interp : Interp.Bearings → Prop
  /-- Whether the record is to be right whenever a task pauses, too. -/
  strict : Prop

/-! ## Steps -/

/-- Steps that are the same without and with a record. It is right where they end with a value, of
which something holds, or with a fault. -/
inductive Step.Recorded (ready : Nat → Prop) (W : Watch) {α : Type} (P : α → Prop) :
    Step α → Step α → Prop
  | ok {a : α} {i : Interp} {s : Store} {record : List SentRequest} (ha : P a)
      (hi : W.interp i.bearings) (hs : Logged ready W.busy s record) :
      Recorded ready W P (.done (.ok a) i s) (.done (.ok a) i (s.resent record))
  | fault {f : Fault} {i : Interp} {s : Store} {record : List SentRequest}
      (hi : W.interp i.bearings) (hs : Logged ready W.busy s record) :
      Recorded ready W P (.done (.fault f) i s) (.done (.fault f) i (s.resent record))
  | exhausted {i : Interp} {s : Store} {record : List SentRequest}
      (hs : W.strict → Logged ready W.busy s record) :
      Recorded ready W P (.done .exhausted i s) (.done .exhausted i (s.resent record))
  | pause {w : Wait} {s : Store} {record : List SentRequest}
      {resume resume' : Wake → Store → Step α}
      (hs : W.strict → Logged ready W.busy s record)
      (h : ∀ wake, Recorded ready W P (resume wake s) (resume' wake (s.resent record))) :
      Recorded ready W P (.pause w s resume) (.pause w (s.resent record) resume')

/-- Tasks that are the same without and with a record. -/
structure Task.Recorded (ready : Nat → Prop) (W : Watch) {α : Type} (P : α → Prop) (x y : Task α) :
    Prop where
  steps : ∀ {i : Interp} {s : Store} {record : List SentRequest}, W.interp i.bearings →
    Logged ready W.busy s record → (x i s).Recorded ready W P (y i (s.resent record))

variable {ready : Nat → Prop} {W : Watch} {α β : Type} {P : α → Prop} {Q : β → Prop}

namespace Step.Recorded

variable {x y : Step α}

/-- Less may be asked: of the interpreter, of the value, and at pauses. -/
theorem mono {V : Watch} {P' : α → Prop} (h : x.Recorded ready W P y) (hbusy : V.busy = W.busy)
    (hinterp : ∀ b, W.interp b → V.interp b) (hstrict : V.strict → W.strict)
    (hP : ∀ a, P a → P' a) : x.Recorded ready V P' y := by
  induction h with
  | ok ha hi hs => exact .ok (hP _ ha) (hinterp _ hi) (hbusy ▸ hs)
  | fault hi hs => exact .fault (hinterp _ hi) (hbusy ▸ hs)
  | exhausted hs => exact .exhausted fun hv => hbusy ▸ hs (hstrict hv)
  | pause hs _ ih => exact .pause (fun hv => hbusy ▸ hs (hstrict hv)) ih

theorem bind {f g : α → Task β} (h : x.Recorded ready W P y)
    (hf : ∀ a, P a → (f a).Recorded ready W Q (g a)) :
    (x.bind f).Recorded ready W Q (y.bind g) := by
  induction h with
  | ok ha hi hs => exact (hf _ ha).steps hi hs
  | fault hi hs => exact .fault hi hs
  | exhausted hs => exact .exhausted hs
  | pause hs _ ih => exact .pause hs ih

theorem attempt (h : x.Recorded ready W P y) :
    x.attempt.Recorded ready W (fun r => ∀ a, r = .ok a → P a) y.attempt := by
  induction h with
  | ok ha hi hs => exact .ok (fun _ e => Except.ok.inj e ▸ ha) hi hs
  | fault hi hs => exact .ok nofun hi hs
  | exhausted hs => exact .exhausted hs
  | pause hs _ ih => exact .pause hs ih

theorem later (h : x.Recorded ready W P y) : x.later.Recorded ready W P y.later := by
  have hdone : ∀ {r : Result α} {i : Interp} {s : Store} {record : List SentRequest},
      (Step.done r i s).Recorded ready W P (.done r i (s.resent record)) →
      (W.strict → Logged ready W.busy s record) →
      (Step.done r i s).later.Recorded ready W P (Step.done r i (s.resent record)).later := by
    intro r i s record hr hs
    unfold Step.later
    rw [show (s.resent record).isShared = s.isShared from rfl]
    split
    · exact .pause hs fun _ => hr
    · exact hr
  induction h with
  | ok ha hi hs => exact hdone (.ok ha hi hs) fun _ => hs
  | fault hi hs => exact hdone (.fault hi hs) fun _ => hs
  | exhausted hs => exact hdone (.exhausted hs) hs
  | pause hs _ ih => exact .pause hs ih

theorem handedOn (h : x.Recorded ready W P y) : x.handedOn.Recorded ready W P y.handedOn := by
  cases h with
  | ok ha hi hs => exact (ok ha hi hs).later.later
  | fault hi hs => exact (fault hi hs).later.later
  | exhausted hs => exact (exhausted hs).later.later
  | pause hs h => exact (pause hs h).later

theorem unlessRaised (h : x.Recorded ready W P y) :
    x.unlessRaised.Recorded ready W P y.unlessRaised := by
  cases h with
  | ok ha hi hs => exact (ok ha hi hs).later
  | fault hi hs => exact .fault hi hs
  | exhausted hs => exact (exhausted hs).later
  | pause hs h => exact (pause hs h).later

/-- A missed deadline goes on with the interpreter that the task began with. -/
theorem within {i : Interp} (h : x.Recorded ready W P y) (hstrict : W.strict)
    (hi : W.interp i.bearings) (ms : Binary64) :
    (x.within ms i).Recorded ready W (fun _ => True) (y.within ms i) := by
  induction h with
  | ok _ hj hs => exact .ok ⟨⟩ hj hs
  | fault hj hs => exact .fault hj hs
  | exhausted hs => exact .exhausted hs
  | @pause w s record _ _ hs _ ih =>
    refine .pause hs fun wake => ?_
    split
    · exact .ok ⟨⟩ hi (hs hstrict)
    · exact ih wake

/-- A step of another interpreter, with a watch of its own for that one. -/
theorem restoring {V : Watch} {i : Interp} (h : x.Recorded ready W P y) (hbusy : V.busy = W.busy)
    (hstrict : V.strict → W.strict) (hi : V.interp i.bearings) :
    (x.restoring i).Recorded ready V (fun r => P r.1 ∧ W.interp r.2.bearings) (y.restoring i) := by
  induction h with
  | ok ha hj hs => exact .ok ⟨ha, hj⟩ hi (hbusy ▸ hs)
  | fault _ hs => exact .fault hi (hbusy ▸ hs)
  | exhausted hs => exact .exhausted fun hv => hbusy ▸ hs (hstrict hv)
  | pause hs _ ih => exact .pause (fun hv => hbusy ▸ hs (hstrict hv)) ih

end Step.Recorded

/-! ## Tasks -/

namespace Task.Recorded

variable {x y : Task α}

theorem mono {P' : α → Prop} (h : x.Recorded ready W P y) (hP : ∀ a, P a → P' a) :
    x.Recorded ready W P' y :=
  ⟨fun hi hs => (h.steps hi hs).mono rfl (fun _ => id) id hP⟩

theorem pure {a : α} (ha : P a) : (Pure.pure a : Task α).Recorded ready W P (Pure.pure a) :=
  ⟨fun hi hs => .ok ha hi hs⟩

theorem throw (f : Fault) : (Task.throw f : Task α).Recorded ready W P (Task.throw f) :=
  ⟨fun hi hs => .fault hi hs⟩

theorem exhausted : (Task.exhausted : Task α).Recorded ready W P Task.exhausted :=
  ⟨fun _ hs => .exhausted fun _ => hs⟩

theorem bind {f g : α → Task β} (h : x.Recorded ready W P y)
    (hf : ∀ a, P a → (f a).Recorded ready W Q (g a)) :
    (x >>= f).Recorded ready W Q (y >>= g) :=
  ⟨fun hi hs => (h.steps hi hs).bind hf⟩

theorem attempt (h : x.Recorded ready W P y) :
    x.attempt.Recorded ready W (fun r => ∀ a, r = .ok a → P a) y.attempt :=
  ⟨fun hi hs => (h.steps hi hs).attempt⟩

theorem lift {a : Except Fault α} (h : ∀ b, a = .ok b → P b) :
    (Task.lift a).Recorded ready W P (Task.lift a) := by
  cases a with
  | ok b => exact pure (h b rfl)
  | error f => exact throw f

theorem call (h : x.Recorded ready W P y) : x.call.Recorded ready W P y.call :=
  ⟨fun hi hs => (h.steps hi hs).later⟩

theorem handOn (h : x.Recorded ready W P y) : x.handOn.Recorded ready W P y.handOn :=
  ⟨fun hi hs => (h.steps hi hs).handedOn⟩

theorem callCode (waits : Bool) (h : x.Recorded ready W P y) :
    (x.callCode waits).Recorded ready W P (y.callCode waits) := by
  cases waits with
  | true => exact call h
  | false => exact ⟨fun hi hs => (h.steps hi hs).unlessRaised⟩

theorem turn : Task.turn.Recorded ready W (fun _ => True) Task.turn := call (pure ⟨⟩)

theorem wait (reason : Reason) :
    (Task.wait reason).Recorded ready W (fun _ => True) (Task.wait reason) :=
  ⟨fun hi hs => .pause (fun _ => hs) fun _ => .ok ⟨⟩ hi hs⟩

/-- A look at what does not depend on the requests sent. -/
theorem view {f : Interp → Store → α} (hf : ∀ i s l, f i (s.resent l) = f i s)
    (h : ∀ {i s record}, W.interp i.bearings → Logged ready W.busy s record → P (f i s)) :
    (Task.view f).Recorded ready W P (Task.view f) := by
  refine ⟨fun {i s record} hi hs => ?_⟩
  show Step.Recorded ready W P (.done (.ok (f i s)) i s) (.done (.ok (f i (s.resent record))) i _)
  rw [hf]
  exact .ok (h hi hs) hi hs

/-- A look whose result does not matter. -/
theorem look {f : Interp → Store → α} (hf : ∀ i s l, f i (s.resent l) = f i s) :
    (Task.view f).Recorded ready W (fun _ => True) (Task.view f) := view hf fun _ _ => ⟨⟩

theorem interp : Task.interp.Recorded ready W (fun i => W.interp i.bearings) Task.interp :=
  view (fun _ _ _ => rfl) fun hi _ => hi

/-- A change of the interpreter that leaves its bearings as they are. -/
theorem update {f : Interp → Interp} (hf : ∀ i, (f i).bearings = i.bearings) :
    (Task.update f).Recorded ready W (fun _ => True) (Task.update f) :=
  ⟨fun hi hs => .ok ⟨⟩ ((hf _).symm ▸ hi) hs⟩

/-- A change of the store that depends on the interpreter. -/
theorem change {f : Interp → Store → Store} (hf : ∀ i, Store.Unrecorded (f i)) :
    Task.Recorded ready W (fun _ => True) (fun i s => .done (.ok ()) i (f i s))
      (fun i s => .done (.ok ()) i (f i s)) := by
  refine ⟨fun {i s record} hi hs => ?_⟩
  rw [(hf i).resent]
  exact .ok ⟨⟩ hi (hs.step (hf i))

theorem updateStore {f : Store → Store} (hf : Store.Unrecorded f) :
    (Task.updateStore f).Recorded ready W (fun _ => True) (Task.updateStore f) := change fun _ => hf

theorem ofStore {f : Store → α × Store} (hvalue : ∀ s l, (f (s.resent l)).1 = (f s).1)
    (hf : Store.Unrecorded fun s => (f s).2)
    (h : ∀ {s record}, Logged ready W.busy s record → P (f s).1) :
    (Task.ofStore f).Recorded ready W P (Task.ofStore f) := by
  refine ⟨fun {i s record} hi hs => ?_⟩
  show Step.Recorded ready W P (.done (.ok (f s).1) i (f s).2)
    (.done (.ok (f (s.resent record)).1) i (f (s.resent record)).2)
  rw [hvalue, hf.resent]
  exact .ok (h hs) hi (hs.step hf)

/-- A change of the store with a result, or a fault that leaves the store alone. -/
theorem ofStore? {f : Store → Except Fault (α × Store)}
    (hf : ∀ s l, f (s.resent l) = (f s).map fun p => (p.1, p.2.resent l))
    (h : ∀ {s record a t}, Logged ready W.busy s record → f s = .ok (a, t) →
      P a ∧ Logged ready W.busy t record) :
    (Task.ofStore? f).Recorded ready W P (Task.ofStore? f) := by
  refine ⟨fun {i s record} hi hs => ?_⟩
  unfold Task.ofStore?
  rw [hf]
  cases hfs : f s with
  | error e => exact .fault hi hs
  | ok p =>
    obtain ⟨a, t⟩ := p
    obtain ⟨ha, ht⟩ := h hs hfs
    exact .ok ha hi ht

theorem log (level : LogLevel) (scope message : String) :
    (Task.log level scope message).Recorded ready W (fun _ => True)
      (Task.log level scope message) :=
  updateStore (.log level scope message)

/-- A task that does not look at the store. -/
theorem apart (h : ∀ i, ∃ r j, (∀ s, x i s = .done r j s) ∧ r ≠ .exhausted ∧
    j.bearings = i.bearings ∧ ∀ a, r = .ok a → P a) : x.Recorded ready W P x := by
  refine ⟨fun {i s record} hi hs => ?_⟩
  obtain ⟨r, j, hx, hr, hj, ha⟩ := h i
  rw [hx, hx]
  cases r with
  | ok a => exact .ok (ha a rfl) (hj ▸ hi) hs
  | fault f => exact .fault (hj ▸ hi) hs
  | exhausted => exact absurd rfl hr

theorem within (h : x.Recorded ready W P y) (hstrict : W.strict) (ms : Binary64) :
    (x.within ms).Recorded ready W (fun _ => True) (y.within ms) := by
  refine ⟨fun hi hs => ?_⟩
  unfold Task.within
  split
  · exact (h.steps hi hs).within hstrict hi ms
  · exact (h.steps hi hs).bind fun _ _ => pure ⟨⟩

theorem onOther {V : Watch} {j : Interp} (h : x.Recorded ready W P y) (hbusy : V.busy = W.busy)
    (hstrict : V.strict → W.strict) (hj : W.interp j.bearings) :
    (Task.onOther j x).Recorded ready V (fun r => P r.1 ∧ W.interp r.2.bearings)
      (Task.onOther j y) :=
  ⟨fun hi hs => (h.steps hj (hbusy ▸ hs)).restoring hbusy hstrict hi⟩

end Task.Recorded

/-! ## Sources -/

/-- Steps of the run of a module's source: what the record says will be right once the module is
ready, if the source was run to its end. -/
inductive Step.RanSource (ready : Nat → Prop) (busy : List Nat) (m : Nat) :
    Step Unit → Step Unit → Prop
  | completed {i : Interp} {s : Store} {record : List SentRequest}
      (hi : i.initializing = m :: busy)
      (hs : Logged ready busy (s.updateModule m fun x => { x with isReady := true }) record) :
      RanSource ready busy m (.done (.ok ()) i s) (.done (.ok ()) i (s.resent record))
  | failed {f : Fault} {i : Interp} {s : Store} {record : List SentRequest}
      (hi : i.initializing = m :: busy) (hs : Logged ready busy s record) :
      RanSource ready busy m (.done (.fault f) i s) (.done (.fault f) i (s.resent record))
  | exhausted {i : Interp} {s : Store} {record : List SentRequest} :
      RanSource ready busy m (.done .exhausted i s) (.done .exhausted i (s.resent record))
  | pause {w : Wait} {s : Store} {record : List SentRequest}
      {resume resume' : Wake → Store → Step Unit}
      (h : ∀ wake, RanSource ready busy m (resume wake s) (resume' wake (s.resent record))) :
      RanSource ready busy m (.pause w s resume) (.pause w (s.resent record) resume')

namespace Step.RanSource

variable {busy : List Nat} {m : Nat} {x y : Step Unit}

theorem later (h : x.RanSource ready busy m y) : x.later.RanSource ready busy m y.later := by
  have hdone : ∀ {r : Result Unit} {i : Interp} {s : Store} {record : List SentRequest},
      (Step.done r i s).RanSource ready busy m (.done r i (s.resent record)) →
      (Step.done r i s).later.RanSource ready busy m (Step.done r i (s.resent record)).later := by
    intro r i s record hr
    unfold Step.later
    rw [show (s.resent record).isShared = s.isShared from rfl]
    split
    · exact .pause fun _ => hr
    · exact hr
  induction h with
  | completed hi hs => exact hdone (.completed hi hs)
  | failed hi hs => exact hdone (.failed hi hs)
  | exhausted => exact hdone .exhausted
  | pause _ ih => exact .pause ih

/-- What is done after the source was run. -/
theorem attempt_bind {f : Except Fault Unit → Task β} (h : x.RanSource ready busy m y)
    (hstrict : ¬W.strict)
    (hok : ∀ {i s record}, i.initializing = m :: busy →
      Logged ready busy (s.updateModule m fun x => { x with isReady := true }) record →
        (f (.ok ()) i s).Recorded ready W Q (f (.ok ()) i (s.resent record)))
    (hfault : ∀ {e i s record}, i.initializing = m :: busy → Logged ready busy s record →
      (f (.error e) i s).Recorded ready W Q (f (.error e) i (s.resent record))) :
    (x.attempt.bind f).Recorded ready W Q (y.attempt.bind f) := by
  induction h with
  | completed hi hs => exact hok hi hs
  | failed hi hs => exact hfault hi hs
  | exhausted => exact .exhausted fun hw => absurd hw hstrict
  | pause _ ih => exact .pause (fun hw => absurd hw hstrict) ih

end Step.RanSource

/-! ## Ends -/

/-- Tasks end in the same way without and with a record, and the record is right. -/
theorem Step.Recorded.finish {x y : Step α} {r : Result α} {j : Interp} {t : Store}
    (h : x.Recorded ready W P y) (hx : x.finish = .ended r j t) (hr : r ≠ .exhausted) :
    ∃ record, y.finish = .ended r j (t.resent record) ∧ W.interp j.bearings ∧
      Logged ready W.busy t record := by
  induction h with
  | @ok _ _ _ record _ hi hs =>
    cases hx
    exact ⟨record, rfl, hi, hs⟩
  | @fault _ _ _ record hi hs =>
    cases hx
    exact ⟨record, rfl, hi, hs⟩
  | exhausted =>
    cases hx
    exact absurd rfl hr
  | @pause w s record _ _ _ _ ih =>
    have hready : w.isReady true (s.resent record) = w.isReady true s := by
      unfold Wait.isReady
      split <;> rfl
    unfold Step.finish at hx ⊢
    rw [hready]
    split at hx
    · rename_i hw
      rw [if_pos hw]
      exact ih _ hx
    · rename_i hw
      rw [if_neg hw]
      split at hx
      · rename_i hd
        rw [if_pos hd]
        exact ih _ hx
      · cases hx

end Wordstack
