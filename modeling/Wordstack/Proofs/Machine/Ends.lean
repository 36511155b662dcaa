import Wordstack.Proofs.Machine.Coupling
import Wordstack.Proofs.Machine.Requests

/-!
# How tasks end

What a task alone ends with, in terms of what its parts end with. A step that nobody else runs beside
is resumed with the store as it has left it. What it would do with other stores makes no difference
then, neither to its end nor to whether it ends in time.

- **Outcomes** (`Outcome.of_bind`, `Outcome.isOk`, …): what an outcome that was gone on with has come
  from, and ends as described.
- **Primitive tasks** (`Task.finish_view`, `Task.finish_update`, …) and those that take no turn
  (`Task.finish_updateStore`, `Task.finish_lift`, …).
- **Words** (`finish_dispatch`, `finish_execute_definition`).
- **Modules** (`finish_initializeModule`, `finish_drainPending`) and **runs** (`finish_runSource`,
  `Task.finish_ownRun`).
- **Invariants** (`Outcome.Alike.fits`): what survives every change holds at the end.
- **The same steps** (`Step.Same`): those that go on in the same way from the stores that they leave.
  They have the same ends (`Step.Same.finish_eq`), and the operations on steps keep them so.
-/

namespace Wordstack

namespace Result

variable {α : Type} {a : α} {f : Fault}

theorem ok_ne_exhausted : Result.ok a ≠ .exhausted := by simp

theorem fault_ne_exhausted : (Result.fault f : Result α) ≠ .exhausted := by simp

end Result

namespace Outcome

variable {α β : Type} {f : α → Interp → Store → Outcome β} {i : Interp} {s : Store}

@[simp] theorem bind_ok (a : α) : (ended (.ok a) i s).bind f = f a i s := rfl

@[simp] theorem attempt_ok (a : α) :
    (ended (.ok a) i s).attempt = ended (.ok (.ok a)) i s := rfl

variable {x : Outcome α} {j : Interp} {t : Store}

/-- Only values are gone on with. -/
theorem of_bind {r : Result β} (h : x.bind f = .ended r j t) (hr : r ≠ .exhausted) :
    (∃ a k u, x = .ended (.ok a) k u ∧ f a k u = .ended r j t) ∨
    (∃ g, x = .ended (.fault g) j t ∧ r = .fault g) := by
  cases x with
  | hung => cases h
  | ended r' k u =>
    cases r' with
    | ok a => exact .inl ⟨a, k, u, rfl, h⟩
    | fault g => cases h; exact .inr ⟨g, rfl, rfl⟩
    | exhausted => cases h; exact absurd rfl hr

theorem of_bind_ok {b : β} (h : x.bind f = .ended (.ok b) j t) :
    ∃ a k u, x = .ended (.ok a) k u ∧ f a k u = .ended (.ok b) j t := by
  rcases of_bind h Result.ok_ne_exhausted with hok | ⟨g, -, hr⟩
  · exact hok
  · cases hr

/-- Faults that are values are gone on with as well. -/
theorem of_attempt_bind {f : Except Fault α → Interp → Store → Outcome β} {r : Result β}
    (h : x.attempt.bind f = .ended r j t) (hr : r ≠ .exhausted) :
    (∃ a k u, x = .ended (.ok a) k u ∧ f (.ok a) k u = .ended r j t) ∨
    (∃ g k u, x = .ended (.fault g) k u ∧ f (.error g) k u = .ended r j t) := by
  cases x with
  | hung => cases h
  | ended r' k u =>
    cases r' with
    | ok a => exact .inl ⟨a, k, u, rfl, h⟩
    | fault g => exact .inr ⟨g, k, u, rfl, h⟩
    | exhausted => cases h; exact absurd rfl hr

/-- Whether a task has ended without a fault, and as described. -/
def isOk (x : Outcome Unit) (p : Interp → Store → Bool) : Bool :=
  match x with
  | ended (.ok _) i s => p i s
  | _ => false

/-- Whether a task has ended with a fault, and as described. -/
def isFault (x : Outcome Unit) (p : Interp → Store → Bool) : Bool :=
  match x with
  | ended (.fault _) i s => p i s
  | _ => false

theorem exists_of_isOk {x : Outcome Unit} {p : Interp → Store → Bool} (h : x.isOk p = true) :
    ∃ i s, x = .ended (.ok ()) i s ∧ p i s = true := by
  cases x with
  | hung s => cases h
  | ended r i s =>
    cases r with
    | ok => exact ⟨i, s, rfl, h⟩
    | _ => cases h

theorem exists_of_isFault {x : Outcome Unit} {p : Interp → Store → Bool}
    (h : x.isFault p = true) : ∃ f i s, x = .ended (.fault f) i s ∧ p i s = true := by
  cases x with
  | hung s => cases h
  | ended r i s =>
    cases r with
    | fault f => exact ⟨f, i, s, rfl, h⟩
    | _ => cases h

/-- Whether a task has ended with a fault that is as described. -/
def failsWith (x : Outcome α) (p : Fault → Bool) : Bool :=
  match x with
  | ended (.fault f) _ _ => p f
  | _ => false

theorem exists_of_failsWith {x : Outcome α} {p : Fault → Bool} (h : x.failsWith p = true) :
    ∃ f i s, x = .ended (.fault f) i s ∧ p f = true := by
  cases x with
  | hung s => cases h
  | ended r i s =>
    cases r with
    | fault f => exact ⟨f, i, s, rfl, h⟩
    | _ => cases h

end Outcome

/-- Where the value of a step has come from. -/
theorem Step.Yields.finish {α : Type} {P : α → Interp → Prop} {x : Step α} {a : α} {j : Interp}
    {t : Store} (h : x.Yields P) (hx : x.finish = .ended (.ok a) j t) : P a j := by
  induction x with
  | done r k u =>
    cases hx
    exact h
  | pause w u resume ih =>
    unfold Step.finish at hx
    split at hx
    · exact ih _ _ (h _ _) hx
    · split at hx
      · exact ih _ _ (h _ _) hx
      · cases hx

theorem Except.exists_of_any {ε α : Type} {x : Except ε α} {p : α → Bool}
    (h : x.toOption.any p = true) : ∃ a, x = .ok a ∧ p a = true := by
  cases x with
  | ok a => exact ⟨a, rfl, h⟩
  | error e => cases h

namespace Task

variable {α : Type} (i : Interp) (s : Store)

@[simp] theorem finish_view (f : Interp → Store → α) :
    (view f).finish i s = .ended (.ok (f i s)) i s := rfl

@[simp] theorem finish_interp : interp.finish i s = .ended (.ok i) i s := rfl

@[simp] theorem finish_update (f : Interp → Interp) :
    (update f).finish i s = .ended (.ok ()) (f i) s := rfl

end Task

variable {e : Nested} {i : Interp} {s : Store} {m : Nat}

/-! ## Words -/

/-- The interpreter while a word is dispatched. -/
def Interp.dispatching (w : Word) (l : Option Location) (i : Interp) : Interp :=
  { i with
    profile := if w.isProfiled then i.profile.count w.qualifiedName else i.profile
    call := l }

theorem finish_dispatch {w : Word} {l : Option Location} :
    (dispatch e w l).finish i s = (execute e w).finish (i.dispatching w l) s := by
  unfold dispatch noteDispatch
  rw [Task.finish_bind, Task.finish_update, Outcome.bind_ok, Task.finish_call]
  rfl

theorem finish_execute_definition {label : WordLabel} {body : List (Word × Location)} :
    (execute e (.definition label body)).finish i s =
      (executeBody e label.name i.call body).finish i s := by
  rw [execute, Task.finish_bind, Task.finish_view, Outcome.bind_ok]

/-! ## Modules -/

/-- Where the source of a module begins. -/
def Module.origin (module : Module) : Location := { Location.origin with source := module.name }

/-- The end of the initialization of a module, once its source was run. -/
def finishModule (m : Nat) (name : String) : Except Fault Unit → Interp → Store → Outcome Unit
  | .ok _, i, s =>
    .ended (.ok ()) (i.leaveModule m) (s.updateModule m fun x => { x with isReady := true })
  | .error f, i, s => .ended (.fault (.moduleFailed name (some f))) (i.leaveModule m) s

theorem finish_initializeModule_skipped
    (h : ((s.module m).isReady || i.initializing.contains m) = true) :
    (initializeModule e m).finish i s = .ended (.ok ()) i s := by
  unfold initializeModule
  rw [Task.finish_bind, Task.finish_view, Outcome.bind_ok, if_pos h]
  rfl

theorem finish_initializeModule
    (h : ((s.module m).isReady || i.initializing.contains m) = false) :
    (initializeModule e m).finish i s =
      ((e.run (s.module m).source (s.module m).origin).finish (i.enterModule m) s).attempt.bind
        (finishModule m (s.module m).name) := by
  unfold initializeModule
  rw [Task.finish_bind, Task.finish_view, Outcome.bind_ok, h]
  rw [if_neg Bool.false_ne_true, Task.finish_bind, Task.finish_view, Outcome.bind_ok,
    Task.finish_bind, Task.finish_update, Outcome.bind_ok, Task.finish_bind, Task.finish_attempt,
    Task.finish_call]
  refine congrArg (Outcome.bind _) (funext fun outcome => ?_)
  cases outcome with
  | ok => rfl
  | error f => rfl

/-- A module that is initialized with a fault is left with the fault of its source's run. -/
theorem finish_initializeModule_fault {f : Fault} {j : Interp} {t : Store}
    (h : (initializeModule e m).finish i s = .ended (.fault f) j t) :
    ∃ g k, (e.run (s.module m).source (s.module m).origin).finish (i.enterModule m) s =
        .ended (.fault g) k t ∧
      f = .moduleFailed (s.module m).name (some g) ∧ j = k.leaveModule m := by
  by_cases hskip : ((s.module m).isReady || i.initializing.contains m) = true
  · rw [finish_initializeModule_skipped hskip] at h
    cases h
  rw [finish_initializeModule (by simpa using hskip)] at h
  rcases Outcome.of_attempt_bind h Result.fault_ne_exhausted with
    ⟨_, k, u, hx, h⟩ | ⟨g, k, u, hx, h⟩
  · cases h
  · cases h
    exact ⟨g, k, hx, rfl, rfl⟩

/-- The interpreter with other modules pending. -/
def Interp.await (i : Interp) (pending : List Nat) : Interp := { i with pending }

/-- Draining once the source of the first module was run. A module whose source fails stays
pending. -/
def finishDrain (e : Nested) (bound m : Nat) : Except Fault Unit → Interp → Store → Outcome Unit
  | .ok _, i, s => (drainPending e bound).finish i s
  | .error f, i, s => .ended (.fault f) (i.await (m :: i.pending)) s

theorem finish_drainPending {bound : Nat} {rest : List Nat} (h : i.pending = m :: rest) :
    (drainPending e (bound + 1)).finish i s =
      ((initializeModule e m).finish (i.await rest) s).attempt.bind
        (finishDrain e bound m) := by
  rw [drainPending, Task.finish_bind, Task.finish_interp, Outcome.bind_ok, h]
  simp only
  rw [Task.finish_bind, Task.finish_update, Outcome.bind_ok, Task.finish_bind, Task.finish_attempt,
    Task.finish_call]
  refine congrArg (Outcome.bind _) (funext fun outcome => ?_)
  cases outcome with
  | ok => rfl
  | error f => rfl

theorem finish_initializePending :
    (initializePending e).finish i s = (drainPending e i.pending.length).finish i s := by
  unfold initializePending
  rw [Task.finish_bind, Task.finish_interp, Outcome.bind_ok]

theorem finish_initializePending_nil (h : i.pending = []) :
    (initializePending e).finish i s = .ended (.ok ()) i s := by
  rw [finish_initializePending, h]
  rfl

/-! ## Runs -/

variable {source : String} {origin : Location}

theorem Task.finish_ownRun {isOutermost : Bool} {sc : Scanner} :
    (Task.ownRun e isOutermost sc).finish i s =
      ((runScanner e sc).finish (i.beginRun sc.input) s).attempt.bind fun o i' s =>
        (Task.finishRun isOutermost i.transient o).finish i' s := by
  unfold Task.finish
  rw [Task.ownRun_apply, Step.finish_bind, Step.finish_attempt]
  rfl

/-- No definition is open where a source was read to its end. -/
theorem compiling_of_finish_runScanner {sc : Scanner} {j : Interp} {t : Store}
    (h : (runScanner e sc).finish i s = .ended (.ok ()) j t) : j.compiling = false :=
  (runScanner_yields e i s sc).finish h

section FinishRun

variable {isOutermost : Bool} {saved : Transient}

theorem Task.finish_finishRun_closed (h : isOutermost = true → i.marks = []) :
    (Task.finishRun isOutermost saved (.ok ())).finish i s = .ended (.ok ()) i.endRun s :=
  congrArg Step.finish (Task.finishRun_closed h)

theorem Task.finish_finishRun_open (h : i.marks ≠ []) :
    (Task.finishRun true saved (.ok ())).finish i s =
      .ended (.fault (.unmatchedBracket i.topInput "[" i.previous)) (i.failRun saved) s :=
  congrArg Step.finish (Task.finishRun_open h)

end FinishRun

/-- The state in which a run that begins with `i` comes upon its fault: while its tokens are
handled, or once they are, for a bracket that is left open. -/
inductive Task.FailsAt (e : Nested) (isOutermost : Bool) (sc : Scanner) (i : Interp) (s : Store) :
    Fault → Interp → Store → Prop
  | token {f : Fault} {k : Interp} {t : Store}
      (h : (runScanner e sc).finish (i.beginRun sc.input) s = .ended (.fault f) k t) :
      FailsAt e isOutermost sc i s f k t
  | bracket {k : Interp} {t : Store}
      (h : (runScanner e sc).finish (i.beginRun sc.input) s = .ended (.ok ()) k t)
      (ho : isOutermost = true) (hm : k.marks ≠ []) :
      FailsAt e isOutermost sc i s (.unmatchedBracket k.topInput "[" k.previous) k t

/-- How a run itself ends: with its tokens handled and no bracket left open, or with the fault it
came upon, and what was saved restored. -/
theorem Task.finish_ownRun_cases {isOutermost : Bool} {sc : Scanner} {r : Result Unit} {j : Interp}
    {t : Store} (h : (Task.ownRun e isOutermost sc).finish i s = .ended r j t)
    (hr : r ≠ .exhausted) :
    (∃ k, (runScanner e sc).finish (i.beginRun sc.input) s = .ended (.ok ()) k t ∧
      (isOutermost = true → k.marks = []) ∧ r = .ok () ∧ j = k.endRun) ∨
    (∃ f k, Task.FailsAt e isOutermost sc i s f k t ∧ r = .fault f ∧
      j = k.failRun i.transient) := by
  rw [finish_ownRun] at h
  rcases Outcome.of_attempt_bind h hr with ⟨_, k, u, hx, h⟩ | ⟨f, k, u, hx, h⟩
  · by_cases hm : isOutermost = true → k.marks = []
    · rw [finish_finishRun_closed hm] at h
      cases h
      exact .inl ⟨k, hx, hm, rfl, rfl⟩
    · obtain ⟨rfl, hopen⟩ := Classical.not_imp.mp hm
      rw [finish_finishRun_open hopen] at h
      cases h
      exact .inr ⟨_, k, .bracket hx rfl hopen, rfl, rfl⟩
  · cases h
    exact .inr ⟨f, k, .token hx, rfl, rfl⟩

theorem finish_runSource_inner (h : i.inputs ≠ []) :
    (runSource e source origin).finish i s =
      (Task.ownRun e false (Scanner.start source origin)).finish i s :=
  congrArg Step.finish (runSource_inner h)

theorem finish_runSource_outermost (h : i.inputs = []) :
    (runSource e source origin).finish i s =
      ((initializePending e).finish i s).bind fun _ i s =>
        (Task.ownRun e true (Scanner.start source origin)).finish i s := by
  rw [show (runSource e source origin).finish i s = _ from
    congrArg Step.finish (runSource_outermost h)]
  exact (Task.finish_bind ..).trans (by rw [Task.finish_call])

/-- The state in which the source of a run begins to be read: at once inside of another run,
otherwise once the pending modules have been initialized. -/
inductive Task.Begins (e : Nested) (i : Interp) (s : Store) : Interp → Store → Prop
  | inner (h : i.inputs ≠ []) : Begins e i s i s
  | outermost {i₀ : Interp} {s₀ : Store} (h : i.inputs = [])
      (hp : (initializePending e).finish i s = .ended (.ok ()) i₀ s₀) : Begins e i s i₀ s₀

/-- A run, from where it begins. -/
theorem Task.Begins.finish_runSource {i₀ : Interp} {s₀ : Store} (h : Task.Begins e i s i₀ s₀)
    (source : String) (origin : Location) :
    (runSource e source origin).finish i s =
      (Task.ownRun e i.inputs.isEmpty (Scanner.start source origin)).finish i₀ s₀ := by
  cases h with
  | inner hin => rw [finish_runSource_inner hin, List.isEmpty_eq_false_iff.mpr hin]
  | outermost hin hp =>
    rw [finish_runSource_outermost hin, hp, Outcome.bind_ok, hin]
    rfl

/-- Where no modules are pending a run begins as it is called. -/
theorem Task.Begins.eq {i₀ : Interp} {s₀ : Store} (h : Task.Begins e i s i₀ s₀)
    (hp : i.inputs = [] → i.pending = []) : i₀ = i ∧ s₀ = s := by
  cases h with
  | inner => exact ⟨rfl, rfl⟩
  | outermost h hx =>
    rw [finish_initializePending_nil (hp h)] at hx
    cases hx
    exact ⟨rfl, rfl⟩

/-! ## Invariants -/

/-- What a likeness says of the first interpreter holds where a task has ended. -/
theorem Outcome.Alike.fits {α β : Type} {L : Likeness} {R : α → β → Prop} {x : Outcome α}
    {y : Outcome β} {r : Result α} (h : Outcome.Alike L R x y) (hx : x = .ended r i s)
    (hr : r ≠ .exhausted) : L.Fits i ∧ (L.blind = true → s.Blind) := by
  cases h with
  | exhausted => cases hx; exact absurd rfl hr
  | ok _ hi hs => cases hx; exact ⟨hi.fits, hs.blind⟩
  | fault _ hi hs => cases hx; exact ⟨hi.fits, hs.blind⟩
  | hung => cases hx

/-- Where places may not differ, what ends alike ends with the same result and interpreter. -/
theorem Outcome.Alike.ended {α : Type} {L : Likeness} {y : Outcome α} {r : Result α}
    (h : Outcome.Alike L (· = ·) (.ended r i s) y) (hL : L.Sound) (hl : L.loose = false)
    (hr : r ≠ .exhausted) : ∃ t, y = .ended r i t ∧ L.Stores s t ∧ L.Fits i := by
  cases h with
  | exhausted => exact absurd rfl hr
  | ok h hi hs =>
    obtain rfl := h
    obtain rfl := hi.eq hL hl
    exact ⟨_, rfl, hs, hi.fits⟩
  | fault h hi hs =>
    obtain rfl := hi.eq hL hl
    obtain rfl := hL.eq_of_fault h hl
    exact ⟨_, rfl, hs, hi.fits⟩

/-- The likeness of an interpreter to itself while something holds. -/
def Likeness.keeping (i : Interp) (blind : Bool) (holds : Interp → Prop) : Likeness :=
  { inputs := i.inputs, pending := i.pending.length, blind, holds }

section Keeping

variable {holds : Interp → Prop} {blind : Bool}

theorem Likeness.keeping_sound (i : Interp) (blind : Bool) (hinv : Invariant 0 holds) :
    (Likeness.keeping i blind holds).Sound :=
  ⟨fun _ => rfl, rfl, nofun, nofun, Nat.zero_le _, hinv, nofun⟩

theorem Likeness.keeping_self (i : Interp) (blind : Bool) (hi : holds i)
    (hb : blind = true → ∀ d ∈ i.definition, Word.BlindBody d.body) :
    (Likeness.keeping i blind holds).Interps i i :=
  Likeness.Fits.self ⟨(List.append_nil i.inputs).symm, Nat.le_refl _, hi, hb⟩ rfl

/-- What a task that is alike to itself keeps. -/
theorem Task.Alike.keeps {α : Type} {x : Task α} {r : Result α} {j : Interp} {t : Store}
    (h : Task.Alike (.keeping i blind holds) (.keeping i blind holds) (· = ·) x x)
    (hi : holds i) (hb : blind = true → (∀ d ∈ i.definition, Word.BlindBody d.body) ∧ s.Blind)
    (hx : x.finish i s = .ended r j t) (hr : r ≠ .exhausted) :
    (Likeness.keeping i blind holds).Fits j ∧ (blind = true → t.Blind) :=
  (h.finish (Likeness.keeping_self i blind hi fun h => (hb h).1)
    (Likeness.Stores.refl (fun h => (hb h).2) nofun)).fits hx hr

/-- What survives every change survives a task that is alike to itself, which takes no text in
progress away. -/
theorem Task.Alike.keeps_holds {α : Type} {x : Task α} {r : Result α} {j : Interp} {t : Store}
    (h : Task.Alike (.keeping i false holds) (.keeping i false holds) (· = ·) x x) (hi : holds i)
    (hx : x.finish i s = .ended r j t) (hr : r ≠ .exhausted) : j.inputs = i.inputs ∧ holds j := by
  obtain ⟨hfits, -⟩ := h.keeps hi nofun hx hr
  exact ⟨hfits.inputs_eq rfl, hfits.holds⟩

end Keeping

/-! ## The same steps -/

/-- Two steps that are the same to somebody who resumes them with the store that they have left. -/
inductive Step.Same {α : Type} : Step α → Step α → Prop
  | done (r : Result α) (i : Interp) (s : Store) : Same (.done r i s) (.done r i s)
  | pause (w : Wait) (s : Store) {resume resume' : Wake → Store → Step α}
      (h : ∀ wake, Same (resume wake s) (resume' wake s)) :
      Same (.pause w s resume) (.pause w s resume')

namespace Step.Same

variable {α β : Type} {x y : Step α}

@[refl] theorem refl (x : Step α) : Same x x := by
  induction x with
  | done r i s => exact .done r i s
  | pause w s resume ih => exact .pause w s fun wake => ih wake s

/-- The same steps end in the same way. -/
theorem finish_eq (h : Same x y) : x.finish = y.finish := by
  induction h with
  | done r i s => rfl
  | pause w s h ih => simp only [Step.finish, ih]

theorem bind (h : Same x y) {f g : α → Task β} (hf : ∀ a i s, Same (f a i s) (g a i s)) :
    Same (x.bind f) (y.bind g) := by
  induction h with
  | done r i s =>
    cases r with
    | ok a => exact hf a i s
    | fault f => exact .refl _
    | exhausted => exact .refl _
  | pause w s h ih => exact .pause w s ih

theorem attempt (h : Same x y) : Same x.attempt y.attempt := by
  induction h with
  | done r i s => exact .refl _
  | pause w s h ih => exact .pause w s ih

theorem restoring (h : Same x y) (i : Interp) : Same (x.restoring i) (y.restoring i) := by
  induction h with
  | done r j s => exact .refl _
  | pause w s h ih => exact .pause w s ih

theorem later (h : Same x y) : Same x.later y.later := by
  induction h with
  | done r i s => exact .refl _
  | pause w s h ih => exact .pause w s ih

theorem within (h : Same x y) (ms : Binary64) (i : Interp) :
    Same (x.within ms i) (y.within ms i) := by
  induction h with
  | done r j s => exact .refl _
  | pause w s h ih =>
    refine .pause _ s fun wake => ?_
    split
    · exact .refl _
    · exact ih wake

end Step.Same

/-! ## Operations that take no turn -/

namespace Outcome

variable {α β γ : Type} {i : Interp} {s : Store}

@[simp] theorem bind_fault (f : Fault) (g : α → Interp → Store → Outcome β) :
    (ended (.fault f) i s).bind g = ended (.fault f) i s := rfl

@[simp] theorem attempt_fault (f : Fault) :
    (ended (.fault f) i s : Outcome α).attempt = ended (.ok (.error f)) i s := rfl

theorem bind_assoc (x : Outcome α) (f : α → Interp → Store → Outcome β)
    (g : β → Interp → Store → Outcome γ) :
    (x.bind f).bind g = x.bind fun a i s => (f a i s).bind g := by
  cases x with
  | hung s => rfl
  | ended r i s => cases r <;> rfl

end Outcome

namespace Task

variable {α : Type} {i : Interp} {s : Store}

@[simp] theorem finish_updateStore (f : Store → Store) :
    (updateStore f).finish i s = .ended (.ok ()) i (f s) := rfl

@[simp] theorem finish_log (level : LogLevel) (scope message : String) :
    (log level scope message).finish i s = .ended (.ok ()) i (s.log level scope message) := rfl

@[simp] theorem finish_lift_ok (a : α) : (lift (.ok a)).finish i s = .ended (.ok a) i s := rfl

@[simp] theorem finish_lift_error (f : Fault) :
    (lift (.error f) : Task α).finish i s = .ended (.fault f) i s := rfl

end Task

end Wordstack
