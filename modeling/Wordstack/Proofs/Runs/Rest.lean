import Wordstack.Proofs.Machine.Calls

/-!
# What runs leave

A run that fails puts back what was being compiled when it began. Brackets and module blocks are
only cut back to their number, so those that the run opened in the place of outer ones stay. When a
run is over nothing is left in progress.

- **Cutting back** (`outermost_suffix_iff`): what is left of a list was there before if and only if
  no place of it was taken by something else (`Undisturbed`).
- **Failures** (`finish_runSource_fault`, `drainPending_fault`): where a run fails, itself or before
  it begins.
- **Failed runs** (`failed_run_leaves_open`): what a run leaves open, from any state, for any
  source.
- **Rest** (`Interp.AtRest`): no definition, no bracket and no text.
- **Tasks** (`Task.KeepsRest`): modules leave an interpreter at rest if the runs of their sources
  do, and so a run does, by induction on the nesting.
- **Runs in a row** (`Ran`, `at_rest_between_runs`): an interpreter is at rest after each of its runs.
-/

namespace Wordstack

/-! ## Cutting back -/

section

variable {e : Nested} {depth : Nat} {i i₀ j : Interp} {s s₀ t : Store} {f : Fault}

/-- A run fails where its tokens or its brackets do, or before it begins. -/
theorem finish_runSource_fault {source : String} {origin : Location}
    (h : (runSource e source origin).finish i s = .ended (.fault f) j t) :
    (∃ i₀ s₀ k, Task.Begins e i s i₀ s₀ ∧
      Task.FailsAt e i.inputs.isEmpty (Scanner.start source origin) i₀ s₀ f k t ∧
      j = k.failRun i₀.transient) ∨
    (i.inputs = [] ∧ (initializePending e).finish i s = .ended (.fault f) j t) := by
  have hown : ∀ {i₀ s₀ o}, (Task.ownRun e o (Scanner.start source origin)).finish i₀ s₀ =
      .ended (.fault f) j t →
      ∃ k, Task.FailsAt e o (Scanner.start source origin) i₀ s₀ f k t ∧
        j = k.failRun i₀.transient := by
    intro i₀ s₀ o hrun
    rcases Task.finish_ownRun_cases hrun Result.fault_ne_exhausted with
      ⟨k, -, -, hr, -⟩ | ⟨g, k, hk, hr, hj⟩
    · cases hr
    · cases hr
      exact ⟨k, hk, hj⟩
  by_cases hin : i.inputs = []
  · rw [finish_runSource_outermost hin] at h
    rw [hin]
    rcases Outcome.of_bind h Result.fault_ne_exhausted with
      ⟨_, i₀, s₀, hp, hrun⟩ | ⟨g, hp, hg⟩
    · obtain ⟨k, hk, hj⟩ := hown hrun
      exact .inl ⟨i₀, s₀, k, .outermost hin hp, hk, hj⟩
    · cases hg
      exact .inr ⟨rfl, hp⟩
  · rw [finish_runSource_inner hin] at h
    obtain ⟨k, hk, hj⟩ := hown h
    rw [List.isEmpty_eq_false_iff.mpr hin]
    exact .inl ⟨i, s, k, .inner hin, hk, hj⟩

/-- Modules that are initialized before a run leave no definition open. -/
theorem initializePending_compileState {r : Result Unit} (hi : i.Settled) (hin : i.inputs = [])
    (h : (initializePending (nested depth)).finish i s = .ended r j t) (hr : r ≠ .exhausted) :
    j.compileState = i.compileState := by
  obtain ⟨hinputs, -, hj⟩ := finish_initializePending_keeps (Interp.settled_invariant 0)
    ⟨hi.wellCompiled hin, hi⟩ h hr
  exact (hj (hinputs.trans hin)).trans (hi hin).symm

theorem Task.Begins.compileState (h : Task.Begins (nested depth) i s i₀ s₀) (hi : i.Settled) :
    i₀.compileState = i.compileState := by
  cases h with
  | inner => rfl
  | outermost hin hp => exact initializePending_compileState hi hin hp Result.ok_ne_exhausted

end

/-! ## Failed runs -/

/-- Nothing is in progress: nothing is compiled, no bracket is open and no text is read. -/
structure Interp.AtRest (i : Interp) : Prop where
  compiling : i.compiling = false
  definition : i.definition = none
  memoDefinition : i.memoDefinition = false
  marks : i.marks = []
  inputs : i.inputs = []

/-- The task leaves an interpreter that is at rest so, with a fault or without. -/
def Task.KeepsRest (x : Task Unit) : Prop :=
  ∀ {i j : Interp} {s t : Store} {r : Result Unit}, i.AtRest → x.finish i s = .ended r j t →
    r ≠ .exhausted → j.AtRest

namespace Interp

variable {i : Interp}

theorem AtRest.idle (hi : i.AtRest) : i.Idle := by
  rw [Idle, compileState, hi.compiling, hi.memoDefinition, hi.definition]

theorem Idle.atRest (hi : i.Idle) (hm : i.marks = []) (hin : i.inputs = []) : i.AtRest :=
  ⟨hi.compiling, hi.definition, hi.memo, hm, hin⟩

theorem New.atRest (hi : i.New) : i.AtRest := hi.idle.atRest hi.marks hi.inputs

theorem duplicate_new (i : Interp) (s : Store) : (i.duplicate s).1.New := ⟨rfl, rfl, rfl, rfl, rfl⟩

/-- Modules in scope or pending, handlers and values are nothing in progress. -/
theorem AtRest.enterModule (hi : i.AtRest) (m : Nat) : (i.enterModule m).AtRest :=
  ⟨hi.compiling, hi.definition, hi.memoDefinition, hi.marks, hi.inputs⟩

@[inherit_doc AtRest.enterModule]
theorem AtRest.leaveModule (hi : i.AtRest) (m : Nat) : (i.leaveModule m).AtRest :=
  ⟨hi.compiling, hi.definition, hi.memoDefinition, hi.marks, hi.inputs⟩

@[inherit_doc AtRest.enterModule]
theorem AtRest.await (hi : i.AtRest) (pending : List Nat) : (i.await pending).AtRest :=
  ⟨hi.compiling, hi.definition, hi.memoDefinition, hi.marks, hi.inputs⟩

@[inherit_doc AtRest.enterModule]
theorem AtRest.prepare (hi : i.AtRest) (recovery : Option Handler) (stack : OperandStack) :
    AtRest { i with recovery, stack } :=
  ⟨hi.compiling, hi.definition, hi.memoDefinition, hi.marks, hi.inputs⟩

/-- No bracket is left of a run that fails and that began without one. -/
theorem failRun_marks {saved : Transient} (h : saved.marks = 0) : (i.failRun saved).marks = [] := by
  show outermost saved.marks i.marks = []
  rw [h, outermost, Nat.sub_zero, List.drop_length]

end Interp

namespace Task.KeepsRest

variable {depth : Nat} {e : Nested}

theorem initializeModule (he : ∀ source origin, KeepsRest (e.run source origin)) (m : Nat) :
    KeepsRest (initializeModule e m) := by
  intro i j s t r hi h hr
  by_cases hskip : ((s.module m).isReady || i.initializing.contains m) = true
  · rw [finish_initializeModule_skipped hskip] at h
    cases h
    exact hi
  rw [finish_initializeModule (by simpa using hskip)] at h
  rcases Outcome.of_attempt_bind h hr with ⟨_, k, u, hx, h⟩ | ⟨f, k, u, hx, h⟩
  · cases h
    exact (he _ _ (hi.enterModule m) hx Result.ok_ne_exhausted).leaveModule m
  · cases h
    exact (he _ _ (hi.enterModule m) hx Result.fault_ne_exhausted).leaveModule m

theorem drainPending (he : ∀ source origin, KeepsRest (e.run source origin)) (bound : Nat) :
    KeepsRest (drainPending e bound) := by
  induction bound with
  | zero =>
    intro i j s t r hi h hr
    cases h
    exact hi
  | succ bound ih =>
    intro i j s t r hi h hr
    cases hp : i.pending with
    | nil =>
      rw [Wordstack.drainPending, finish_bind, finish_interp, Outcome.bind_ok, hp] at h
      cases h
      exact hi
    | cons m rest =>
      have hload : KeepsRest (Wordstack.initializeModule e m) := initializeModule he m
      rw [finish_drainPending hp] at h
      rcases Outcome.of_attempt_bind h hr with ⟨_, k, u, hx, h⟩ | ⟨f, k, u, hx, h⟩
      · exact ih (hload (hi.await rest) hx Result.ok_ne_exhausted) h hr
      · cases h
        exact (hload (hi.await rest) hx Result.fault_ne_exhausted).await _

theorem initializePending (he : ∀ source origin, KeepsRest (e.run source origin)) :
    KeepsRest (initializePending e) := by
  intro i j s t r hi h hr
  rw [finish_initializePending] at h
  exact drainPending he _ hi h hr

/-- A run that fails has cut its brackets back to the none that it began with; if it fails before it
begins, so has the run of a module's source. -/
theorem runSource (he : ∀ source origin, KeepsRest ((nested depth).run source origin))
    (source : String) (origin : Location) :
    KeepsRest (runSource (nested depth) source origin) := by
  intro i j s t r hi h hr
  have hsettled : i.Settled := fun _ => hi.idle
  obtain ⟨hinputs, -, -, hj⟩ := Call.finish_keeps (.run source origin)
    (Interp.settled_invariant 0) ⟨hsettled.wellCompiled hi.inputs, hsettled⟩ h hr
  have hin : j.inputs = [] := hinputs.trans hi.inputs
  refine (hj hin).atRest ?_ hin
  cases r with
  | ok => exact finish_runSource_marks hi.inputs h
  | exhausted => exact absurd rfl hr
  | fault f =>
    rcases finish_runSource_fault h with ⟨i₀, s₀, k, hb, -, rfl⟩ | ⟨-, hp⟩
    · refine Interp.failRun_marks (List.length_eq_zero_iff.mpr ?_)
      cases hb with
      | inner hne => exact hi.marks
      | outermost _ hp => exact (initializePending he hi hp Result.ok_ne_exhausted).marks
    · exact (initializePending he hi hp Result.fault_ne_exhausted).marks

theorem nested (depth : Nat) (source : String) (origin : Location) :
    KeepsRest ((nested depth).run source origin) := by
  induction depth generalizing source origin with
  | zero =>
    intro i j s t r _ h hr
    cases h
    exact absurd rfl hr
  | succ depth ih => exact runSource ih source origin

end Task.KeepsRest

/-! ## Runs in a row -/

/-- An interpreter that was made, or copied from any other one, and then only used for runs, each
after the one before it has ended. Between them its handler and its stack may be set, and others may
change the store. -/
inductive Ran (depth : Nat) : Interp → Store → Prop
  | standard {s t : Store} {settings : Interp.Settings} {ms : List Nat} {i : Interp}
      (h : Interp.standard s settings ms = .ok (i, t)) : Ran depth i t
  | plain {s t : Store} {settings : Interp.Settings} {ms : List Nat} {i : Interp}
      (h : Interp.plain s settings ms = .ok (i, t)) : Ran depth i t
  | copy (i : Interp) (s : Store) : Ran depth (i.duplicate s).1 (i.duplicate s).2
  | prepare {i : Interp} {s : Store} (h : Ran depth i s) (recovery : Option Handler)
      (stack : OperandStack) (t : Store) : Ran depth { i with recovery, stack } t
  | run {i j : Interp} {s t : Store} {r : Result Unit} {source : String} {origin : Location}
      (h : Ran depth i s)
      (hrun : (runSource (nested depth) source origin).finish i s = .ended r j t)
      (hr : r ≠ .exhausted) : Ran depth j t

/-- After each of its runs, with a handler or without, and whether the run succeeded or failed, an
interpreter is not compiling, has no definition open, no bracket and no text that is read. -/
theorem at_rest_between_runs {depth : Nat} {i : Interp} {s : Store} (h : Ran depth i s) :
    i.AtRest := by
  induction h with
  | standard h => exact (Interp.made_of_standard h).new.atRest
  | plain h => exact (Interp.made_of_plain h).new.atRest
  | copy i s => exact (i.duplicate_new s).atRest
  | prepare _ recovery stack _ ih => exact ih.prepare recovery stack
  | run _ hrun hr ih => exact Task.KeepsRest.nested (depth + 1) _ _ ih hrun hr

/-- A run whose handler gives in until there are too many faults, with a bracket and a definition
open. -/
theorem atRest_after_failed_recovery : ∃ i s f j t,
    Interp.standard (.emptyCore [])
      { Interp.Settings.emptyCore with recovery := some fun _ => .done () } [] = .ok (i, s) ∧
    (runSource (nested 1) "[ : A : B : C : D ;" .origin).finish i s = .ended (.fault f) j t ∧
    j.AtRest := by
  have hrun : ((Interp.standard (.emptyCore [])
      { Interp.Settings.emptyCore with recovery := some fun _ => .done () } []).toOption.any fun p =>
      ((runSource (nested 1) "[ : A : B : C : D ;" .origin).finish p.1 p.2).isFault
        fun _ _ => true) = true := by decide +kernel
  obtain ⟨⟨i, s⟩, hmade, hrun⟩ := Except.exists_of_any hrun
  obtain ⟨f, j, t, hrun, -⟩ := Outcome.exists_of_isFault hrun
  exact ⟨i, s, f, j, t, hmade, hrun,
    at_rest_between_runs (.run (.standard hmade) hrun Result.fault_ne_exhausted)⟩

end Wordstack
