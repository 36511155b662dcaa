import Wordstack.Proofs.Bridge.Recorded
import Wordstack.Proofs.Machine.Ends

/-!
# Modules are initialized once

- **Failing sources** (`SourceFails`, `FailuresNamed`): whoever has the source of a module run, to
  use the module or before a run, learns from the fault which module has failed, and why.
- **Sources that run once** (`SourcesRunOnce`): no source is run inside of itself, or to its end
  twice, and the modules that are ready are those whose sources were run to their ends.
- **Calls** (`module_sources_run_once`): this is so whatever modules import each other, and whatever
  calls a program makes.
-/

namespace Wordstack

variable {e : Nested} {i j k : Interp} {s t u : Store} {m : Nat} {f cause : Fault}

/-! ## Failing sources -/

/-- The source of a module is to be run, and its run ends with a fault. -/
structure SourceFails (e : Nested) (m : Nat) (i : Interp) (s : Store) (cause : Fault) (j : Interp)
    (t : Store) : Prop where
  due : i.skips s m = false
  run : (e.run (s.module m).source (s.module m).origin).finish (i.enterModule m) s =
    .ended (.fault cause) j t

/-- The fault that names a module whose source has failed. -/
def Store.sourceFault (s : Store) (m : Nat) (cause : Fault) : Fault :=
  .moduleFailed (s.module m).name (some cause)

theorem SourceFails.finish_initializeModule (h : SourceFails e m i s cause j t) :
    (initializeModule e m).finish i s =
      .ended (.fault (s.sourceFault m cause)) (j.leaveModule m) t := by
  rw [Wordstack.finish_initializeModule h.due, h.run]
  rfl

/-- Initialization ends with a fault only where a source fails. -/
theorem SourceFails.of_initializeModule
    (h : (initializeModule e m).finish i s = .ended (.fault f) j t) :
    ∃ cause k, SourceFails e m i s cause k t ∧ f = s.sourceFault m cause := by
  obtain ⟨cause, k, hrun, hf, -⟩ := finish_initializeModule_fault h
  refine ⟨cause, k, ⟨?_, hrun⟩, hf⟩
  by_contra hskip
  have hskip : i.skips s m = true := by simpa using hskip
  rw [finish_initializeModule_skipped hskip] at h
  cases h

/-! ### Imports -/

/-- A module is initialized before it is imported. -/
theorem finish_useModules_cons (name qualifier : String) (rest : List (String × String)) :
    (useModules e ((name, qualifier) :: rest)).finish i s =
      ((Task.lift (i.findModule name)).finish i s).bind fun m i s =>
        ((initializeModule e m).finish i s).bind fun _ i s =>
          ((Task.updateCurrent "importModule" fun current =>
            current.addImport ⟨m, qualifier⟩).finish i s).bind fun _ i s =>
              (useModules e rest).finish i s := by
  rw [useModules, Task.finish_bind, Task.finish_interp, Outcome.bind_ok, Task.finish_bind]
  refine congrArg (Outcome.bind _) (funext fun m => funext fun i => funext fun s => ?_)
  rw [Task.finish_bind, Task.finish_call]
  refine congrArg (Outcome.bind _) (funext fun _ => funext fun i => funext fun s => ?_)
  exact Task.finish_bind ..

theorem finish_useModules_append (before after : List (String × String)) :
    (useModules e (before ++ after)).finish i s =
      ((useModules e before).finish i s).bind fun _ i s => (useModules e after).finish i s := by
  induction before generalizing i s with
  | nil => rfl
  | cons pair before ih =>
    obtain ⟨name, qualifier⟩ := pair
    simp only [List.cons_append, finish_useModules_cons, Outcome.bind_assoc, ih]

/-- The imports before a module whose source fails are made, and none after it. -/
theorem SourceFails.finish_useModules {before : List (String × String)} {name : String}
    (h : SourceFails e m k u cause j t)
    (hbefore : (useModules e before).finish i s = .ended (.ok ()) k u)
    (hm : k.findModule name = .ok m) (qualifier : String) (after : List (String × String)) :
    (useModules e (before ++ (name, qualifier) :: after)).finish i s =
      .ended (.fault (u.sourceFault m cause)) (j.leaveModule m) t := by
  rw [finish_useModules_append, hbefore, Outcome.bind_ok, finish_useModules_cons, hm,
    Task.finish_lift_ok, Outcome.bind_ok, h.finish_initializeModule, Outcome.bind_fault]

/-! ### Pending modules -/

/-- Before a run, too, it is the source of a module that fails. -/
theorem SourceFails.of_drainPending {bound : Nat}
    (h : (drainPending e bound).finish i s = .ended (.fault f) j t) :
    ∃ m k u cause l, SourceFails e m k u cause l t ∧ f = u.sourceFault m cause := by
  induction bound generalizing i s with
  | zero => cases h
  | succ bound ih =>
    cases hp : i.pending with
    | nil =>
      rw [drainPending, Task.finish_bind, Task.finish_interp, Outcome.bind_ok, hp] at h
      cases h
    | cons m rest =>
      rw [finish_drainPending hp] at h
      rcases Outcome.of_attempt_bind h Result.fault_ne_exhausted with
        ⟨_, k, u, -, h⟩ | ⟨g, k, u, hx, h⟩
      · exact ih h
      · cases h
        obtain ⟨cause, l, hfails, hf⟩ := SourceFails.of_initializeModule hx
        exact ⟨m, i.await rest, s, cause, l, hfails, hf⟩

/-- Failures of sources are told by faults that name the modules and have the faults of the sources
as their causes: when a module is loaded, when it is one of those that are imported, and when it is
initialized before a run. -/
structure FailuresNamed (e : Nested) : Prop where
  load : ∀ {m i s cause j t}, SourceFails e m i s cause j t →
    (initializeModule e m).finish i s =
      .ended (.fault (s.sourceFault m cause)) (j.leaveModule m) t
  use : ∀ {before name i s k u m cause j t},
    (useModules e before).finish i s = .ended (.ok ()) k u → k.findModule name = .ok m →
      SourceFails e m k u cause j t → ∀ qualifier after,
        (useModules e (before ++ (name, qualifier) :: after)).finish i s =
          .ended (.fault (u.sourceFault m cause)) (j.leaveModule m) t
  pending : ∀ {i s f j t}, i.inputs = [] →
    (initializePending e).finish i s = .ended (.fault f) j t →
    (∃ m k u cause l, SourceFails e m k u cause l t ∧ f = u.sourceFault m cause) ∧
      ∀ source origin, (runSource e source origin).finish i s = .ended (.fault f) j t

theorem failuresNamed (e : Nested) : FailuresNamed e where
  load h := h.finish_initializeModule
  use hbefore hm h qualifier after := h.finish_useModules hbefore hm qualifier after
  pending hin h := by
    refine ⟨SourceFails.of_drainPending (finish_initializePending ▸ h), fun source origin => ?_⟩
    rw [finish_runSource_outermost hin, h, Outcome.bind_fault]

/-! ## Sources that run once -/

/-- What the events between `s` and the time when `j` and `t` are left say: sources begin to be run
only while they are not being run, never again after they were run to their ends, and only those of
modules that were not ready at first. They are run to their ends at most once, and just that makes
their modules ready. No run of a source, and no initialization, is left unfinished. -/
structure SourcesRunOnce (s : Store) (j : Interp) (t : Store) (events : List SourceEvent) :
    Prop where
  begun : ∀ m earlier later, events = later ++ .begun m :: earlier →
    m ∉ inProgress earlier ∧ .completed m ∉ earlier ∧ (s.module m).isReady = false
  once : ∀ m, events.count (.completed m) ≤ 1
  ready : ∀ m, (t.module m).isReady = true ↔
    (s.module m).isReady = true ∨ .completed m ∈ events
  finished : inProgress events = [] ∧ j.initializing = []

/-- The sources that have to be run are those of the modules that are not ready. -/
theorem logged_nil
    (hserved : ∀ p ∈ s.endpoints, p.runtime.Serves fun m => (s.module m).isReady = true) :
    Logged (fun m => (s.module m).isReady = true) [] s [] where
  served := hserved
  new m hm := by
    rw [Store.module_of_size_le hm]
    rfl
  orderly := .start
  ready m := by simp [eventsOf]

theorem SourcesRunOnce.of_logged {record : List SentRequest}
    (h : Logged (fun m => (s.module m).isReady = true) [] t record) (hj : j.initializing = []) :
    SourcesRunOnce s j t (eventsOf record) where
  begun m earlier later hevents := by
    have horderly := h.orderly
    rw [hevents] at horderly
    obtain ⟨hbusy, hdone, hready⟩ := horderly.of_begun
    exact ⟨hbusy, hdone, by simpa using hready⟩
  once := h.orderly.count_completed_le
  ready := h.ready
  finished := ⟨h.orderly.inProgress_eq, hj⟩

/-! ## Calls -/

/-- Whatever modules use each other, and whatever calls a program makes: the sources of modules are
run to their ends once, and failures of sources are told by faults that name the modules. No source
of a module that is served to others is to be run. -/
theorem module_sources_run_once {depth : Nat} {made : List (Call × Result Unit)}
    (hi : i.initializing = [])
    (hserved : ∀ p ∈ s.endpoints, p.runtime.Serves fun m => (s.module m).isReady = true)
    (h : CallsMade (nested depth) i s made j t) :
    (∃ record, CallsMade (recorded depth) i (s.resent []) made j (t.resent record) ∧
      SourcesRunOnce s j t (eventsOf record)) ∧
    FailuresNamed (nested depth) := by
  obtain ⟨record, hmade, hj, ht⟩ := h.recorded hi (logged_nil hserved)
  exact ⟨⟨record, hmade, .of_logged ht hj⟩, failuresNamed _⟩

/-- Two modules whose sources use each other, and one that uses them and fails. -/
def Store.cyclic : Store :=
  { modules :=
      #[{ name := "", words :=
          [.direct { name := "USE-A" } true (.ask (.useModules [("a", "")]) fun _ => .done ()) [],
            .direct { name := "USE-B" } true (.ask (.useModules [("b", "")]) fun _ => .done ())
              []] },
        { name := "a", source := "USE-B", isReady := false },
        { name := "b", source := "USE-A", isReady := false },
        { name := "c", source := "USE-A FAIL", isReady := false }] }

/-- An interpreter that finds the modules by their names. -/
def Interp.cyclic : Interp :=
  { Interp.blank with registered := [("a", 1), ("b", 2), ("c", 3)] }

theorem module_sources_run_once_cyclic :
    ∃ cause j t record,
      CallsMade (recorded 3) .cyclic (Store.cyclic.resent [])
        [(.use [("c", "")], .fault (.moduleFailed "c" (some cause)))] j (t.resent record) ∧
      SourcesRunOnce .cyclic j t (eventsOf record) ∧
      SourceEvent.completed 1 ∈ eventsOf record ∧ SourceEvent.completed 2 ∈ eventsOf record ∧
      SourceEvent.completed 3 ∉ eventsOf record := by
  have hserved : ∀ p ∈ Store.cyclic.endpoints,
      p.runtime.Serves fun m => (Store.cyclic.module m).isReady = true := fun _ hp => by cases hp
  have hends : (((nested 3).run "USE-A FAIL" (Store.cyclic.module 3).origin).finish
      (Interp.cyclic.enterModule 3) .cyclic).isFault (fun _ t => (t.module 1).isReady &&
        (t.module 2).isReady && !(t.module 3).isReady) = true := by decide +kernel
  obtain ⟨cause, k, t, hrun, hready⟩ := Outcome.exists_of_isFault hends
  obtain ⟨hready, hthird⟩ := (Bool.and_eq_true ..).mp hready
  obtain ⟨hfirst, hsecond⟩ := (Bool.and_eq_true ..).mp hready
  have hstart : CallsMade (nested 3) .cyclic .cyclic [] .cyclic .cyclic := .start
  obtain ⟨-, hnamed⟩ := module_sources_run_once rfl hserved hstart
  have hbefore : (useModules (nested 3) []).finish .cyclic .cyclic =
      .ended (.ok ()) .cyclic .cyclic := rfl
  have hfound : Interp.cyclic.findModule "c" = .ok 3 := rfl
  have hfault := hnamed.use hbefore hfound ⟨rfl, hrun⟩ "" []
  have hmade := hstart.call (.use [("c", "")]) hfault Result.fault_ne_exhausted
  obtain ⟨⟨record, hrecorded, honce⟩, -⟩ := module_sources_run_once rfl hserved hmade
  refine ⟨cause, _, t, record, hrecorded, honce, ?_, ?_, fun hthird' => ?_⟩
  · exact ((honce.ready 1).mp hfirst).resolve_left (by decide)
  · exact ((honce.ready 2).mp hsecond).resolve_left (by decide)
  · rw [(honce.ready 3).mpr (.inr hthird')] at hthird
    cases hthird

end Wordstack
