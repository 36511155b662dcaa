import Mathlib.Data.List.Nodup
import Wordstack.Proofs.Bridge.RemoteCalls
import Wordstack.Proofs.Machine.Making
import Wordstack.Proofs.Runs.DefinedWord
import Wordstack.Proofs.Runs.Stops
import Wordstack.Vocabulary.Core

/-!
# Trying a source

Trying a source is all or nothing on the stack: it leaves what the run of the source leaves and null,
or the stack that was there before the source and a record of the failure.

- **Core's words** (`Core.interpret`, `Core.tries`): what is behind the names `INTERPRET` and `TRY`,
  and what core's module has under a name (`Word.IsCore`, `isCore_of_build`).
- **The code** (`finish_perform_tryRun`): in terms of how the nested run ends.
- **The word** (`TryEnds`, `try_all_or_nothing`).
-/

namespace Wordstack

/-! ## Words that run source texts -/

namespace Core

open Native

/-- Runs the source text on top of the stack; null is no text. -/
def interpret : Native Unit := do
  match ← query .pop with
  | .null => return
  | v => query (.run (← text "INTERPRET source" v))

/-- Tries the source text on top of the stack. -/
def tries : Native Unit := do tryRun (← text "TRY source" (← query .pop))

end Core

/-- A word is the one that core's module has under a name for working on the stack itself. -/
def Word.IsCore (name : String) (w : Word) : Prop :=
  ∃ spec ∈ Core.directs, spec.name = name ∧
    ∃ label, label.name = name ∧ label.home = some coreName ∧
      w = .direct label spec.waits spec.code spec.handlers

/-! ## What core's words are -/

theorem Core.nodup_directs : (Core.directs.map DirectSpec.name).Nodup := by decide

section

variable {w : Word}

/-- Different words of the declaration have different names. -/
theorem Word.IsCore.eq_of_mem {spec : DirectSpec} (hs : spec ∈ Core.directs)
    (h : w.IsCore spec.name) : ∃ label, label.name = spec.name ∧ label.home = some coreName ∧
      w = .direct label spec.waits spec.code spec.handlers := by
  obtain ⟨spec', hs', hname, hw⟩ := h
  obtain rfl := List.inj_on_of_nodup_map Core.nodup_directs hs' hs hname
  exact hw

theorem Word.IsCore.of_interpret (h : w.IsCore "INTERPRET") :
    ∃ label, label.name = "INTERPRET" ∧ label.home = some coreName ∧
      w = .direct label true Core.interpret [] := by
  have hs : Core.directs[0] ∈ Core.directs := List.getElem_mem _
  exact Word.IsCore.eq_of_mem hs h

theorem Word.IsCore.of_try (h : w.IsCore "TRY") :
    ∃ label, label.name = "TRY" ∧ label.home = some coreName ∧
      w = .direct label true Core.tries [] := by
  have hs : Core.directs[1] ∈ Core.directs := List.getElem_mem _
  exact Word.IsCore.eq_of_mem hs h

end

/-! ## Where they are found -/

theorem Core.name_ne_of_native {spec : NativeSpec} (h : spec ∈ Core.natives) :
    spec.name ∉ Core.directs.map DirectSpec.name := by
  have hall : ∀ n ∈ Core.natives.map NativeSpec.name, n ∉ Core.directs.map DirectSpec.name := by
    decide
  exact hall _ (List.mem_map_of_mem h)

/-- In core's module the words that work on the stack themselves stand under the declared names. -/
theorem isCore_of_build {m : Module} {w : Word} {id : Nat} (h : coreModule.build id = .ok m)
    (hw : w ∈ m.words) (hname : w.name ∈ Core.directs.map DirectSpec.name) : w.IsCore w.name := by
  obtain ⟨ws, v, k, hws, hv, rfl⟩ := ModuleSpec.exists_declared_of_build h hw
  have hsame : (v.relabel fun l => { l with id := some k, home := some coreName }).name = v.name := by
    cases v <;> rfl
  obtain ⟨s, hs, he⟩ | ⟨s, hs, he⟩ := ModuleSpec.of_mem_words hws hv
  · refine absurd hname ?_
    rw [show coreModule.name = coreName from rfl, hsame, s.name_of_word he]
    exact Core.name_ne_of_native hs
  · obtain ⟨label, -, rfl⟩ := s.of_word he
    exact ⟨s, hs, (s.name_of_word he).symm, _, rfl, rfl, rfl⟩

/-! ## The code -/

namespace Core

/-- The code that goes on with the fault of a source that was tried, or none. -/
def endTry (saved : List Val) : Option Fault → Native Unit
  | none => .ask (.push .null) .done
  | some f =>
    if f.isStop then .fail f
    else .ask (.setStack saved) fun _ => .ask (.push f.toRecord) .done

theorem tryRun_eq (source : String) :
    tryRun source = .ask .stack fun saved => .ask (.attempt source) (endTry saved) := by
  refine congrArg (Native.ask .stack) (funext fun saved => ?_)
  refine congrArg (Native.ask (.attempt source)) (funext fun o => ?_)
  cases o with
  | none => rfl
  | some f =>
    show (if f.isStop = true then _ else _) = if f.isStop = true then _ else _
    cases f.isStop <;> rfl

/-- The end of trying a source above the values `below`, once the source was run. -/
def finishTry (below : List Val) : Except Fault Unit → Interp → Store → Outcome Unit
  | .ok _, i, s => .ended (.ok ()) { i with stack := i.stack.push .null } s
  | .error f, i, s =>
    if f.isStop then .ended (.fault f) i s
    else .ended (.ok ()) { i with stack := .ofList (below ++ [f.toRecord]) } s

end Core

section

variable {e : Nested} {source : String} {below : List Val} {i : Interp} {s : Store}

/-- A word that works on the stack itself is its code, with its faults seen to. -/
theorem finish_dispatch_direct {w : Word} {label : WordLabel} {waits : Bool} {code : Native Unit}
    {hs : List Handler} {l : Option Location} (hw : w = .direct label waits code hs) :
    (dispatch e w l).finish i s =
      ((perform e code).finish (i.dispatching w l) s).attempt.bind fun o j t =>
        Task.finish (match o with
          | .ok _ => pure ()
          | .error f => Task.call (recover e label hs f)) j t := by
  subst hw
  rewrite [finish_dispatch, execute, finish_guarded, Task.finish_callCode]
  refine congrArg (Outcome.bind _) (funext fun o => ?_)
  cases o <;> rfl

theorem finish_answer_attempt :
    (answer e (.attempt source)).finish i s =
      ((e.run source .origin).finish i s).attempt.bind fun o j t =>
        .ended (.ok (match o with | .ok _ => none | .error f => some f)) j t := by
  unfold answer
  rw [Task.finish_bind, Task.finish_attempt, Task.finish_call]
  refine congrArg (Outcome.bind _) (funext fun o => ?_)
  cases o <;> rfl

theorem OperandStack.ofList_concat (vs : List Val) (v : Val) :
    ofList (vs ++ [v]) = (ofList vs).push v := by
  unfold push ofList
  rw [List.reverse_append]
  rfl

theorem finish_perform_endTry {saved : List Val} (o : Except Fault Unit) :
    (perform e (Core.endTry saved (match o with | .ok _ => none | .error f => some f))).finish i s =
      Core.finishTry saved o i s := by
  cases o with
  | ok => rfl
  | error f =>
    show (perform e (if f.isStop = true then _ else _)).finish i s =
      if f.isStop = true then _ else _
    by_cases hstop : f.isStop = true
    · rw [if_pos hstop, if_pos hstop]
      rfl
    · rw [if_neg hstop, if_neg hstop, OperandStack.ofList_concat]
      rfl

theorem finish_perform_tryRun :
    (perform e (Core.tryRun source)).finish i s =
      ((e.run source .origin).finish i s).attempt.bind (Core.finishTry i.stack.toList) := by
  have hattempt : (perform e (.ask (.attempt source) (Core.endTry i.stack.toList))).finish i s =
      ((answer e (.attempt source)).finish i s).bind fun o j t =>
        (perform e (Core.endTry i.stack.toList o)).finish j t := finish_perform_ask
  rw [Core.tryRun_eq, finish_perform_ask]
  refine hattempt.trans ?_
  rw [finish_answer_attempt, Outcome.bind_assoc]
  refine congrArg (Outcome.bind _) (funext fun o => funext fun j => funext fun t => ?_)
  exact finish_perform_endTry o

theorem finish_pop_push {stack : OperandStack} {v : Val} (h : i.stack = stack.push v) :
    Task.pop.finish i s = .ended (.ok v) { i with stack } s := by
  unfold Task.finish Task.pop
  rw [h]
  rfl

theorem finish_perform_tries (h : i.stack = .ofList (below ++ [.str source])) :
    (perform e Core.tries).finish i s =
      ((e.run source .origin).finish { i with stack := .ofList below } s).attempt.bind
        (Core.finishTry below) := by
  have hpop : (answer e .pop).finish i s =
      .ended (.ok (.str source)) { i with stack := .ofList below } s :=
    finish_pop_push (h.trans (OperandStack.ofList_concat below _))
  show (perform e (.ask .pop _)).finish i s = _
  rw [finish_perform_ask, hpop]
  show (perform e (Core.tryRun source)).finish { i with stack := .ofList below } s = _
  rw [finish_perform_tryRun, OperandStack.toList_ofList]

end

/-! ## The word -/

/-- What trying a source above the values `below` comes to, in terms of what the run of the source
on them comes to. -/
inductive TryEnds (below : List Val) : Outcome Unit → Outcome Unit → Prop
  | ok {j t} : TryEnds below (.ended (.ok ()) j t)
      (.ended (.ok ()) { j with stack := j.stack.push .null } t)
  | fault {f j t} : TryEnds below (.ended (.fault f) j t)
      (.ended (.ok ()) { j with stack := .ofList (below ++
        [.record [("message", .str f.message), ("error_type", .str f.errorType)]]) } t)
  | exhausted {j t} : TryEnds below (.ended .exhausted j t) (.ended .exhausted j t)
  | hung {t} : TryEnds below (.hung t) (.hung t)

theorem TryEnds.ne_fault {below : List Val} {x y : Outcome Unit} (h : TryEnds below x y) {f : Fault}
    {j : Interp} {t : Store} : y ≠ .ended (.fault f) j t := by
  cases h <;> nofun

theorem TryEnds.eq_of_fault {below : List Val} {y : Outcome Unit} {f : Fault} {j : Interp} {t : Store}
    (h : TryEnds below (.ended (.fault f) j t) y) :
    y = .ended (.ok ()) { j with stack := .ofList (below ++
      [.record [("message", .str f.message), ("error_type", .str f.errorType)]]) } t := by
  cases h
  rfl

/-- Trying a source does not fail, and is all or nothing on the stack. When the source runs to its
end, null lies on what it leaves; when it fails, wherever and at whatever depth, the stack is what
it was below the source, and on it a record of the failure. The run of the source must not end with
a stop on purpose. -/
theorem try_all_or_nothing {depth : Nat} {w : Word} {l : Option Location} {source : String}
    {below : List Val} {i : Interp} {s : Store} (hw : w.IsCore "TRY")
    (hstack : i.stack = .ofList (below ++ [.str source]))
    (hstop : ((runSource (nested depth) source .origin).finish
      { i.dispatching w l with stack := .ofList below } s).isStop = false) :
    TryEnds below
      ((runSource (nested depth) source .origin).finish
        { i.dispatching w l with stack := .ofList below } s)
      ((dispatch (nested (depth + 1)) w l).finish i s) ∧
    ∀ f j t, (dispatch (nested (depth + 1)) w l).finish i s ≠ .ended (.fault f) j t := by
  suffices h : TryEnds below _ ((dispatch (nested (depth + 1)) w l).finish i s) from
    ⟨h, fun _ _ _ => h.ne_fault⟩
  obtain ⟨label, -, -, hlabel⟩ := hw.of_try
  have htries : (perform (nested (depth + 1)) Core.tries).finish (i.dispatching w l) s =
      ((runSource (nested depth) source .origin).finish
        { i.dispatching w l with stack := .ofList below } s).attempt.bind (Core.finishTry below) :=
    finish_perform_tries hstack
  rw [finish_dispatch_direct hlabel, htries]
  generalize (runSource (nested depth) source .origin).finish
    { i.dispatching w l with stack := .ofList below } s = x at hstop
  cases x with
  | hung t => exact .hung
  | ended r j t =>
    cases r with
    | exhausted => exact .exhausted
    | ok => exact .ok
    | fault f =>
      have hstop : f.isStop = false := hstop
      have hfinish : Core.finishTry below (.error f) j t =
          .ended (.ok ()) { j with stack := .ofList (below ++ [f.toRecord]) } t := by
        show (if f.isStop = true then _ else _) = _
        rw [hstop]
        rfl
      rw [Outcome.attempt_fault, Outcome.bind_ok, hfinish]
      exact .fault

/-! ## A fixed source -/

/-- The word that tries sources, as core's module has it. -/
def Word.trying : Word := .direct { name := "TRY", home := some coreName } true Core.tries []

theorem Word.trying_isCore : Word.trying.IsCore "TRY" :=
  ⟨Core.directs[1], List.getElem_mem _, rfl, _, rfl, rfl, rfl⟩

/-- A source that drops a value below it, catches a failure and fails. -/
def spoilingSource : String := "DROP \"UNKNOWN\" TRY UNKNOWN"

/-- An interpreter with two values below that source. -/
def Interp.spoiled : Interp :=
  { Interp.blank with stack := .ofList ([.int 1, .int 2] ++ [.str spoilingSource]) }

/-- A store with the words of the source. -/
def Store.spoiling : Store :=
  .holding [.trying, .direct { name := "DROP" } false (.ask .pop fun _ => .done ()) []]

theorem try_all_or_nothing_nested :
    Word.trying.IsCore "TRY" ∧
    Interp.spoiled.stack = .ofList ([.int 1, .int 2] ++ [.str spoilingSource]) ∧
    ((runSource (nested 1) spoilingSource .origin).finish
      { Interp.spoiled.dispatching .trying none with stack := .ofList [.int 1, .int 2] }
      .spoiling).isStop = false ∧
    ∃ f j t, (dispatch (nested 2) .trying none).finish .spoiled .spoiling = .ended (.ok ()) j t ∧
      j.stack.toList = [.int 1, .int 2,
        .record [("message", .str (Fault.message f)), ("error_type", .str f.errorType)]] := by
  let x := (runSource (nested 1) spoilingSource .origin).finish
    { Interp.spoiled.dispatching .trying none with stack := .ofList [.int 1, .int 2] } .spoiling
  have hstop : x.isStop = false := by decide +kernel
  have hfault : x.isFault (fun _ _ => true) = true := by decide +kernel
  refine ⟨Word.trying_isCore, rfl, hstop, ?_⟩
  have hends : TryEnds [.int 1, .int 2] x ((dispatch (nested 2) .trying none).finish _ _) :=
    (try_all_or_nothing Word.trying_isCore rfl hstop).1
  obtain ⟨f, j, t, hx, -⟩ := Outcome.exists_of_isFault hfault
  rw [hx] at hends
  exact ⟨f, _, t, hends.eq_of_fault, OperandStack.toList_ofList _⟩

end Wordstack
