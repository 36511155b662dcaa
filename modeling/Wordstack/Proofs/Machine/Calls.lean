import Wordstack.Machine.Standard
import Wordstack.Proofs.Machine.Ends

/-!
# Calls from outside

- **Definitions** (`Interp.Settled`): where no text is in progress no definition is open.
- **Calls** (`Call`) and **their sequences** (`Calls`): what a program does with an interpreter, one
  call after the other, going on after faults. No definition is open between them (`Calls.settled`),
  and blind words stay blind (`Calls.blind`).
- **Pending modules** (`initializePending_empties`): none are left once they have been initialized.
-/

namespace Wordstack

/-! ## Definitions -/

namespace Interp

/-- An interpreter that is not compiling has no definition open. -/
def WellCompiled (i : Interp) : Prop := i.compiling = false → i.Idle

/-- Definitions are open only while a text is in progress. -/
def Settled (i : Interp) : Prop := i.inputs = [] → i.Idle

theorem wellCompiled_invariant (floor : Nat) : Invariant floor WellCompiled := by
  refine ⟨fun {i j} hi hc => ?_, fun _ hi => hi, fun hi _ => hi, fun hi _ _ => hi⟩
  cases hc with
  | openDefinition d memo hin h => exact fun h => by cases h
  | extendDefinition f =>
    intro h
    have hidle := hi h
    show (i.compiling, i.memoDefinition, i.definition.map f) = _
    rw [hidle.compiling, hidle.memo, hidle.definition]
    rfl
  | closeDefinition => exact fun _ => rfl
  | _ => exact hi

theorem settled_invariant (floor : Nat) : Invariant floor fun i => i.WellCompiled ∧ i.Settled := by
  have hwell := wellCompiled_invariant floor
  refine ⟨fun {i j} hi hc => ⟨hwell.change hi.1 hc, ?_⟩, fun text hi => ⟨hi.1, nofun⟩,
    fun hi hc => ⟨hi.1, fun _ => hi.1 hc⟩, fun {i k} hi _ hk => ⟨hi.1, fun hin => hi.2 ?_⟩⟩
  · cases hc with
    | openDefinition d memo hin h => exact fun h => absurd h hin
    | extendDefinition f hin => exact fun h => absurd h hin
    | closeDefinition hin => exact fun h => absurd h hin
    | _ => exact hi.2
  · exact hk.symm.trans hin

theorem Settled.wellCompiled {i : Interp} (hi : i.Settled) (hin : i.inputs = []) :
    i.WellCompiled := fun _ => hi hin

theorem New.settled {i : Interp} (h : i.New) : i.Settled := fun _ => h.idle

end Interp

/-! ## Calls -/

/-- A call of a program that uses an interpreter. -/
inductive Call where
  | run (source : String) (origin : Location)
  | word (name : String)
  | use (imports : List (String × String))
  | load (m : Nat)

/-- What a call asks for. -/
def Call.task (e : Nested) : Call → Task Unit
  | run source origin => runSource e source origin
  | word name => executeWord e name
  | use imports => useModules e imports
  | load m => initializeModule e m

/-- Calls in order, each from where the one before it has ended. -/
inductive Calls (e : Nested) (i : Interp) (s : Store) : Interp → Store → Prop
  | start : Calls e i s i s
  | call {j k : Interp} {t u : Store} {r : Result Unit} (c : Call) (h : Calls e i s j t)
      (hc : (c.task e).finish j t = .ended r k u) (hr : r ≠ .exhausted) : Calls e i s k u

/-- A new interpreter without words, and its store. -/
def Interp.blank : Interp := { Interp.host with scope := [0] }

@[inherit_doc Interp.blank]
def Store.blank : Store := { modules := #[{ name := "" }] }

theorem Interp.blank_new : Interp.blank.New := ⟨rfl, rfl, rfl, rfl, rfl⟩

/-- A store with a core vocabulary without words, and other modules from index 1 on. -/
def Store.emptyCore (modules : List Module) : Store :=
  { modules := (Module.new coreName "" "" false :: modules).toArray }

theorem Store.emptyCore_blind : (Store.emptyCore []).Blind := by
  intro m hm
  obtain rfl : m = Module.new coreName "" "" false := by simpa [emptyCore] using hm
  exact nofun

/-- Settings of a standard interpreter whose core vocabulary is the one at index 0. -/
def Interp.Settings.emptyCore : Settings :=
  { registry := { entries := [(coreName, 0)] }, zone := some "+00:00" }

/-- Calls of machines that are alike end alike. -/
theorem Call.alike {L : Likeness} {e e' : Nested} (c : Call) (hL : L.Sound)
    (he : Nested.Alike L e e') (hout : L.first = [] ↔ L.second = []) :
    Task.Alike L L (· = ·) (c.task e) (c.task e') := by
  cases c with
  | run source origin => exact Task.Alike.runSource hL he hout source origin
  | word name => exact Task.Alike.executeWord hL he name
  | use imports => exact Task.Alike.useModules hL he imports
  | load m => exact Task.Alike.initializeModule hL he m

/-! ## What calls keep -/

section Keeping

variable {depth : Nat} {holds : Interp → Prop} {i j : Interp} {s t : Store} {r : Result Unit}

/-- A call takes no text in progress away and leaves no more modules pending, and what survives
every change survives it. -/
theorem Call.finish_keeps (c : Call) (hinv : Invariant 0 holds) (hi : holds i)
    (h : (c.task (nested depth)).finish i s = .ended r j t) (hr : r ≠ .exhausted) :
    j.inputs = i.inputs ∧ j.pending.length ≤ i.pending.length ∧ holds j := by
  have hL := Likeness.keeping_sound i false hinv
  have hself := c.alike hL (.exact hL rfl rfl depth) .rfl
  obtain ⟨hfits, -⟩ := hself.keeps hi nofun h hr
  exact ⟨hfits.inputs_eq rfl, hfits.pending, hfits.holds⟩

/-- Blind words stay blind through a call where no definition is open. -/
theorem Call.finish_blind (c : Call) (hi : i.Idle) (hs : s.Blind)
    (h : (c.task (nested depth)).finish i s = .ended r j t) (hr : r ≠ .exhausted) : t.Blind := by
  have hL := Likeness.keeping_sound i true (Invariant.trivial 0)
  have hself := c.alike hL (.exact hL rfl rfl depth) .rfl
  exact (hself.keeps trivial (fun _ => ⟨by rw [hi.definition]; exact nofun, hs⟩) h hr).2 rfl

/-- What survives every change survives the initialization of the modules that are pending before
a run. -/
theorem finish_initializePending_keeps (hinv : Invariant 0 holds) (hi : holds i)
    (h : (initializePending (nested depth)).finish i s = .ended r j t) (hr : r ≠ .exhausted) :
    j.inputs = i.inputs ∧ holds j := by
  have hL := Likeness.keeping_sound i false hinv
  exact (Task.Alike.initializePending hL (.exact hL rfl rfl depth)).keeps_holds hi h hr

/-- What survives every change holds where a run begins. -/
theorem Task.Begins.keeps (h : Task.Begins (nested depth) i s j t) (hinv : Invariant 0 holds)
    (hi : holds i) : holds j := by
  cases h with
  | inner => exact hi
  | outermost _ hp => exact (finish_initializePending_keeps hinv hi hp Result.ok_ne_exhausted).2

/-- What survives every change survives the execution of a word. -/
theorem finish_dispatch_keeps {w : Word} {l : Option Location} (hinv : Invariant 0 holds)
    (hi : holds i) (h : (dispatch (nested depth) w l).finish i s = .ended r j t)
    (hr : r ≠ .exhausted) : holds j := by
  have hL := Likeness.keeping_sound i false hinv
  exact ((Task.Alike.dispatch hL (.exact hL rfl rfl depth) (v := w) rfl nofun (l := l)
    fun _ => rfl).keeps_holds hi h hr).2

/-- What survives every change survives native code. -/
theorem finish_perform_keeps {α : Type} {x : Native α} {o : Result α} (hinv : Invariant 0 holds)
    (hi : holds i) (h : (perform (nested depth) x).finish i s = .ended o j t)
    (ho : o ≠ .exhausted) : j.inputs = i.inputs ∧ holds j := by
  have hL := Likeness.keeping_sound i false hinv
  exact (Task.Alike.perform hL (.exact hL rfl rfl depth) (.exact x)).keeps_holds hi h ho

/-- What survives every change survives a token of a text. -/
theorem finish_handleToken_keeps {k : Token} (hinv : Invariant 0 holds) (hi : holds i)
    (hin : i.inputs ≠ []) (h : (handleToken (nested depth) k).finish i s = .ended r j t)
    (hr : r ≠ .exhausted) : j.inputs = i.inputs ∧ holds j := by
  have hL := Likeness.keeping_sound i false hinv
  have hfirst : (Likeness.keeping i false holds).first ≠ [] := by
    rwa [Likeness.first_of_under rfl]
  exact (Task.Alike.handleToken hL (.exact hL rfl rfl depth) hfirst rfl).keeps_holds hi h hr

/-- Once all pending modules have been initialized there are none. -/
theorem drainPending_empties {bound : Nat} (hb : i.pending.length ≤ bound)
    (h : (drainPending (nested depth) bound).finish i s = .ended (.ok ()) j t) :
    j.pending = [] := by
  induction bound generalizing i s with
  | zero =>
    cases h
    exact List.length_eq_zero_iff.mp (Nat.le_zero.mp hb)
  | succ bound ih =>
    cases hp : i.pending with
    | nil =>
      rw [drainPending, Task.finish_bind, Task.finish_interp, Outcome.bind_ok, hp] at h
      cases h
      exact hp
    | cons m rest =>
      rw [finish_drainPending hp] at h
      rcases Outcome.of_attempt_bind h Result.ok_ne_exhausted with
        ⟨_, k, u, hx, h⟩ | ⟨f, k, u, hx, h⟩
      · obtain ⟨-, hle, -⟩ :=
          Call.finish_keeps (.load m) (Invariant.trivial 0) trivial hx Result.ok_ne_exhausted
        refine ih ?_ h
        have hlen : rest.length + 1 ≤ bound + 1 := by rw [hp] at hb; exact hb
        have hrest : k.pending.length ≤ rest.length := hle
        omega
      · cases h

theorem initializePending_empties
    (h : (initializePending (nested depth)).finish i s = .ended (.ok ()) j t) :
    j.pending = [] := by
  rw [finish_initializePending] at h
  exact drainPending_empties (Nat.le_refl _) h

/-- An outermost run begins with no modules pending, and ends so. -/
theorem finish_runSource_pending {source : String} {origin : Location} (hin : i.inputs = [])
    (h : (runSource (nested depth) source origin).finish i s = .ended (.ok ()) j t) :
    j.pending = [] := by
  rw [finish_runSource_outermost hin] at h
  obtain ⟨_, i₀, s₀, hp, h⟩ := Outcome.of_bind_ok h
  have hL := Likeness.keeping_sound i₀ false (Invariant.trivial 0)
  have hself := Task.Alike.ownRun hL (.exact hL rfl rfl depth) true (Scanner.start source origin)
  obtain ⟨hfits, -⟩ := hself.keeps trivial nofun h Result.ok_ne_exhausted
  have hle : j.pending.length ≤ i₀.pending.length := hfits.pending
  rw [initializePending_empties hp] at hle
  exact List.length_eq_zero_iff.mp (Nat.le_zero.mp hle)

/-! ### Brackets -/

/-- No bracket is open where an outermost run has ended. -/
theorem finish_runSource_marks {e : Nested} {source : String} {origin : Location}
    (hin : i.inputs = []) (h : (runSource e source origin).finish i s = .ended (.ok ()) j t) :
    j.marks = [] := by
  rw [finish_runSource_outermost hin] at h
  obtain ⟨_, i₀, s₀, -, h⟩ := Outcome.of_bind_ok h
  rcases Task.finish_ownRun_cases h Result.ok_ne_exhausted with
    ⟨k, -, hm, -, rfl⟩ | ⟨f, k, -, hf, -⟩
  · exact hm rfl
  · cases hf

/-- Modules that are initialized outside of all sources leave no bracket open. -/
theorem finish_initializeModule_marks {m : Nat} (hin : i.inputs = []) (hm : i.marks = [])
    (h : (initializeModule (nested depth) m).finish i s = .ended (.ok ()) j t) : j.marks = [] := by
  by_cases hskip : ((s.module m).isReady || i.initializing.contains m) = true
  · rw [finish_initializeModule_skipped hskip] at h
    cases h
    exact hm
  rw [finish_initializeModule (by simpa using hskip)] at h
  rcases Outcome.of_attempt_bind h Result.ok_ne_exhausted with
    ⟨_, k, u, hx, h⟩ | ⟨g, k, u, hx, h⟩
  · cases h
    cases depth with
    | zero => cases hx
    | succ depth =>
      have hclosed : k.marks = [] := finish_runSource_marks (i := i.enterModule m) hin hx
      exact hclosed
  · cases h

theorem finish_drainPending_marks {bound : Nat} (hin : i.inputs = []) (hm : i.marks = [])
    (h : (drainPending (nested depth) bound).finish i s = .ended (.ok ()) j t) : j.marks = [] := by
  induction bound generalizing i s with
  | zero =>
    cases h
    exact hm
  | succ bound ih =>
    cases hp : i.pending with
    | nil =>
      rw [drainPending, Task.finish_bind, Task.finish_interp, Outcome.bind_ok, hp] at h
      cases h
      exact hm
    | cons m rest =>
      rw [finish_drainPending hp] at h
      rcases Outcome.of_attempt_bind h Result.ok_ne_exhausted with
        ⟨_, k, u, hx, h⟩ | ⟨f, k, u, hx, h⟩
      · obtain ⟨hinputs, -, -⟩ :=
          Call.finish_keeps (.load m) (Invariant.trivial 0) trivial hx Result.ok_ne_exhausted
        exact ih (hinputs.trans hin) (finish_initializeModule_marks (i := i.await rest) hin hm hx) h
      · cases h

/-- Whatever a program does with a new interpreter, no definition is open whenever a call is
over. -/
theorem Calls.settled (h : Calls (nested depth) i s j t) (hi : i.New) :
    j.inputs = [] ∧ j.Settled := by
  induction h with
  | start => exact ⟨hi.inputs, hi.settled⟩
  | call c _ hc hr ih =>
    obtain ⟨hin, hj⟩ := ih
    obtain ⟨hinputs, -, -, hk⟩ :=
      c.finish_keeps (Interp.settled_invariant 0) ⟨hj.wellCompiled hin, hj⟩ hc hr
    exact ⟨hinputs.trans hin, hk⟩

/-- Programs without native code of their own that is not blind never come to any. -/
theorem Calls.blind (h : Calls (nested depth) i s j t) (hi : i.New) (hs : s.Blind) : t.Blind := by
  induction h with
  | start => exact hs
  | call c hcalls hc hr ih =>
    obtain ⟨hin, hj⟩ := hcalls.settled hi
    exact c.finish_blind (hj hin) ih hc hr

end Keeping

end Wordstack
