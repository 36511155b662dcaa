import Wordstack.Proofs.Bridge.Transparency
import Wordstack.Proofs.Runs.Stops

/-!
# Native words

What dispatching a native word comes to, in terms of what its code comes to by itself.

- **Inputs** (`OperandStack.splitOptions`, `OperandStack.popN?_append`): the options on top are taken
  first, then the inputs, deepest first. Where there are too few inputs the code is not called, but
  options that lay on top are gone (`dispatch_of_short_stack`).
- **Code** (`Native.endsAlone`): what code comes to that asks for nothing of an interpreter.
- **Handlers** (`Tried`): each begins where the one before it has left off.
- **Contract** (`NativeEnds`): the result on what lies below the inputs, the fault, or what becomes
  of it with the handlers (`dispatch_native`).
-/

namespace Wordstack

/-! ## Inputs -/

namespace OperandStack

variable {s : OperandStack} {n : Nat}

/-- The options that a word takes from the top of a stack if it declares them, and the stack without
them. -/
def splitOptions (hasOptions : Bool) (s : OperandStack) : Options × OperandStack :=
  match hasOptions, s.values with
  | true, .options _ entries :: rest => (⟨entries⟩, ⟨rest⟩)
  | _, _ => (.empty, s)

/-- Whether a word that may declare options finds some on top. -/
def HasOptions (hasOptions : Bool) (s : OperandStack) : Prop :=
  hasOptions = true ∧ ∃ id entries, s.top? = some (.options id entries)

theorem splitOptions_of_options {id : Nat} {entries : List (String × Val)} {rest : List Val}
    (hs : s.values = .options id entries :: rest) : s.splitOptions true = (⟨entries⟩, ⟨rest⟩) := by
  unfold splitOptions
  rw [hs]

theorem splitOptions_of_none {hasOptions : Bool}
    (hs : hasOptions = true → ∀ id entries rest, s.values ≠ .options id entries :: rest) :
    s.splitOptions hasOptions = (.empty, s) := by
  unfold splitOptions
  split
  · rename_i id entries rest h
    exact absurd h (hs rfl id entries rest)
  · rfl

/-- Nothing is taken exactly where there are no options. -/
theorem splitOptions_snd_eq_iff {hasOptions : Bool} :
    (s.splitOptions hasOptions).2 = s ↔ ¬ s.HasOptions hasOptions := by
  by_cases h : s.HasOptions hasOptions
  · obtain ⟨rfl, id, entries, htop⟩ := h
    obtain ⟨rest, hs⟩ := List.head?_eq_some_iff.mp htop
    refine iff_of_false (fun heq => ?_) (not_not.mpr ⟨rfl, id, entries, htop⟩)
    rw [splitOptions_of_options hs] at heq
    have hlength : rest.length = s.values.length := congrArg depth heq
    rw [hs, List.length_cons] at hlength
    omega
  · refine iff_of_true ?_ h
    rw [splitOptions_of_none fun ho id entries rest hs => h ⟨ho, id, entries, by rw [top?, hs]; rfl⟩]

theorem popN?_eq_none (h : s.depth < n) : s.popN? n = none := if_pos h

theorem popN?_append (below inputs : List Val) :
    (ofList (below ++ inputs)).popN? inputs.length = some (inputs, ofList below) := by
  have hdepth : ¬ (ofList (below ++ inputs)).depth < inputs.length := by simp [depth, ofList]
  have hlength : inputs.length = inputs.reverse.length := List.length_reverse.symm
  unfold popN?
  rw [if_neg hdepth]
  unfold ofList
  rw [List.reverse_append, hlength, List.take_left, List.drop_left, List.reverse_reverse]

end OperandStack

section Inputs

variable {e : Nested} {label : WordLabel} {n : Nat} {hasOptions waits : Bool}
  {code : List Val → Options → Native (Option Val)} {l : Option Location} {i : Interp} {s : Store}

theorem finish_takeOptions :
    takeOptions.finish i s = .ended (.ok (i.stack.splitOptions true).1)
      { i with stack := (i.stack.splitOptions true).2 } s := by
  unfold Task.finish takeOptions
  split
  · rename_i hs
    rw [OperandStack.splitOptions_of_options hs]
    rfl
  · rename_i hs
    rw [OperandStack.splitOptions_of_none fun _ => hs]
    rfl

/-- Native code is called once options and inputs are taken. -/
theorem finish_callNative :
    (callNative e n hasOptions waits code).finish i s =
      ((Task.popN n).finish { i with stack := (i.stack.splitOptions hasOptions).2 } s).bind
        fun args j t =>
          ((perform e (code args (i.stack.splitOptions hasOptions).1)).finish j t).bind
            fun result j t => (Task.pushSome result).finish j t := by
  have hrest : ∀ (options : Options) (j : Interp) (t : Store), (do
      let args ← Task.popN n
      let result ← Task.callCode waits (perform e (code args options))
      Task.pushSome result : Task Unit).finish j t =
        ((Task.popN n).finish j t).bind fun args j t =>
          ((perform e (code args options)).finish j t).bind fun result j t =>
            (Task.pushSome result).finish j t := by
    intro options j t
    rw [Task.finish_bind]
    refine congrArg (Outcome.bind _) (funext fun args => funext fun j => funext fun t => ?_)
    rw [Task.finish_bind, Task.finish_callCode]
  unfold callNative
  cases hasOptions with
  | true =>
    show (takeOptions >>= fun _ => _ : Task Unit).finish i s = _
    rw [Task.finish_bind, finish_takeOptions]
    exact hrest ..
  | false => exact hrest ..

/-- Where there are too few inputs, the code of a native word makes no difference. -/
theorem finish_callNative_short (h : (i.stack.splitOptions hasOptions).2.depth < n) :
    (callNative e n hasOptions waits code).finish i s = .ended (.fault i.underflow)
      { i with stack := (i.stack.splitOptions hasOptions).2 } s := by
  have hpop : (Task.popN n).finish { i with stack := (i.stack.splitOptions hasOptions).2 } s =
      .ended (.fault i.underflow) { i with stack := (i.stack.splitOptions hasOptions).2 } s := by
    unfold Task.finish Task.popN
    rw [OperandStack.popN?_eq_none h]
    rfl
  rw [finish_callNative, hpop]
  rfl

/-- Where there are enough inputs, the code is called on them with the rest of the stack below. -/
theorem finish_callNative_supplied {below inputs : List Val} {options : Options}
    (hn : inputs.length = n)
    (hstack : i.stack.splitOptions hasOptions = (options, .ofList (below ++ inputs))) :
    (callNative e n hasOptions waits code).finish i s =
      ((perform e (code inputs options)).finish { i with stack := .ofList below } s).bind
        fun result j t => (Task.pushSome result).finish j t := by
  have hpop : (Task.popN n).finish { i with stack := .ofList (below ++ inputs) } s =
      .ended (.ok inputs) { i with stack := .ofList below } s := by
    unfold Task.finish Task.popN
    rw [← hn, OperandStack.popN?_append]
    rfl
  rw [finish_callNative, hstack, hpop]
  rfl

/-- A fault of the engine passes a word without handlers unchanged. -/
theorem finish_guarded_engine {x : Task Unit} {f : Fault} {j : Interp} {t : Store}
    (hstop : f.isStop = false) (hengine : f.isEngine = true)
    (h : x.finish i s = .ended (.fault f) j t) :
    (guarded e label [] x).finish i s = .ended (.fault f) j t := by
  rw [finish_guarded, h, Outcome.attempt_fault, Outcome.bind_ok, Task.finish_call,
    finish_recover_engine hstop hengine]

/-- A native word without handlers that finds too few inputs fails in the same way whatever its code
is. The store and all else of the interpreter are as they were when the word was called, and so is
the stack, but for options on top, which are taken before the inputs are counted. -/
theorem dispatch_of_short_stack (h : (i.stack.splitOptions hasOptions).2.depth < n) :
    ∃ j : Interp, j.stack = (i.stack.splitOptions hasOptions).2 ∧
      (j.stack = i.stack ↔ ¬ i.stack.HasOptions hasOptions) ∧
      ∀ waits code, let w := Word.native label n hasOptions waits code []
        (dispatch e w l).finish i s = .ended (.fault (.stackUnderflow i.topInput l)) j s ∧
        { j with stack := i.stack } = i.dispatching w l := by
  let called := i.dispatching (.native label n hasOptions false (fun _ _ => .done none) []) l
  refine ⟨{ called with stack := (i.stack.splitOptions hasOptions).2 }, rfl,
    OperandStack.splitOptions_snd_eq_iff, fun waits code => ⟨?_, rfl⟩⟩
  rw [finish_dispatch, execute]
  exact finish_guarded_engine rfl rfl (finish_callNative_short h)

end Inputs

/-- A word of two inputs that may be given options. -/
def Word.optioned : Word := .native { name := "W" } 2 true false (fun _ _ => .done none) []

/-- An interpreter with values and options above them on its stack. -/
def Interp.optioned (vs : List Val) : Interp :=
  { Interp.blank with stack := .ofList (vs ++ [.options 0 [("k", .int 2)]]) }

theorem dispatch_of_short_stack_optioned : ((Interp.optioned [.int 1]).stack.splitOptions true).2.depth < 2 ∧
    ∃ j : Interp, (dispatch (nested 0) .optioned none).finish (.optioned [.int 1]) {} =
      .ended (.fault (.stackUnderflow "" none)) j {} ∧ j.stack.toList = [.int 1] := by
  have hshort : ((Interp.optioned [.int 1]).stack.splitOptions true).2.depth < 2 := by decide
  obtain ⟨j, hj, -, hends⟩ := dispatch_of_short_stack hshort
  refine ⟨hshort, j, (hends _ _).1, ?_⟩
  rw [hj]
  rfl

/-- A word that finds too few inputs may leave less on the stack than there was. -/
theorem short_stack_may_lose_options :
    ∃ (i : Interp) (n : Nat) (code : List Val → Options → Native (Option Val)) (f : Fault)
      (j : Interp),
      (i.stack.splitOptions true).2.depth < n ∧
      (dispatch (nested 0) (.native { name := "W" } n true false code []) none).finish i {} =
        .ended (.fault f) j {} ∧
      j.stack ≠ i.stack := by
  refine ⟨.optioned [.int 1], 2, fun _ _ => .done none, _, _, by decide, rfl, fun h => ?_⟩
  exact absurd (congrArg OperandStack.depth h) (by decide)

/-! ## Code that keeps to itself -/

/-- Whether a query is about nothing that an interpreter has: new identities, lines of text, and
waiting. -/
def Query.isDetached : Query → Bool
  | .fresh | .print _ | .turn | .never => true
  | _ => false

/-- What becomes of code that asks detached queries only, and the store that it leaves: its result,
its fault, or nothing when it waits for ever. -/
def Native.endsAlone {α : Type} : Native α → Store → Option (Except Fault α) × Store
  | .done a, s => (some (.ok a), s)
  | .fail f, s => (some (.error f), s)
  | .ask .fresh next, s => (next s.freshId.1).endsAlone s.freshId.2
  | .ask (.print line) next, s => (next ()).endsAlone (s.print line)
  | .ask .turn next, s => (next ()).endsAlone s
  | .ask _ _, s => (none, s)

/-- The outcome that leaves an interpreter as it is. -/
def Outcome.beside {α : Type} (i : Interp) : Option (Except Fault α) × Store → Outcome α
  | (some (.ok a), s) => .ended (.ok a) i s
  | (some (.error f), s) => .ended (.fault f) i s
  | (none, s) => .hung s

/-- Such code neither sees nor changes the interpreter that it is called from. -/
theorem finish_perform_detached {α : Type} {e : Nested} {x : Native α}
    (hx : x.Asks Query.isDetached) {i : Interp} {s : Store} :
    (perform e x).finish i s = .beside i (x.endsAlone s) := by
  induction x generalizing s with
  | done a => rfl
  | fail f => rfl
  | ask q next ih =>
    obtain ⟨hq, hnext⟩ := hx
    rw [finish_perform_ask]
    cases q with
    | fresh => exact ih _ (hnext _)
    | print line => exact ih _ (hnext _)
    | turn =>
      show ((Task.turn).finish i s).bind _ = _
      rw [Task.turn, Task.finish_call]
      exact ih _ (hnext _)
    | never => rfl
    | _ => cases hq

/-! ## Handlers -/

/-- What trying handlers on a fault comes to. They are called in order until one ends without a
fault, and each begins with the state that the one before it has left. -/
inductive Tried (e : Nested) (name : String) (f : Fault) :
    List Handler → Interp → Store → Outcome Bool → Prop
  | none {i s} : Tried e name f [] i s (.ended (.ok false) i s)
  | handled {h rest i s j t} (hh : (perform e (h f)).finish i s = .ended (.ok ()) j t) :
      Tried e name f (h :: rest) i s (.ended (.ok true) j t)
  | declined {h rest i s g j t y} (hh : (perform e (h f)).finish i s = .ended (.fault g) j t)
      (hrest : Tried e name f rest j
        (t.log .debug "word" ("error handler for " ++ name ++ " declined: " ++ g.message)) y) :
      Tried e name f (h :: rest) i s y
  | exhausted {h rest i s j t} (hh : (perform e (h f)).finish i s = .ended .exhausted j t) :
      Tried e name f (h :: rest) i s (.ended .exhausted j t)
  | hung {h rest i s t} (hh : (perform e (h f)).finish i s = .hung t) :
      Tried e name f (h :: rest) i s (.hung t)

theorem tried_tryHandlers {e : Nested} {name : String} {f : Fault} {hs : List Handler} {i : Interp}
    {s : Store} : Tried e name f hs i s ((tryHandlers e name f hs).finish i s) := by
  induction hs generalizing i s with
  | nil => exact .none
  | cons h rest ih =>
    unfold tryHandlers
    rw [Task.finish_bind, Task.finish_attempt, Task.finish_callCode]
    cases hh : (perform e (h f)).finish i s with
    | hung t => exact .hung hh
    | ended r j t =>
      cases r with
      | exhausted => exact .exhausted hh
      | ok => exact .handled hh
      | fault g =>
        refine .declined hh ?_
        show Tried e name f rest j _ ((Task.log .debug "word" _ >>= fun _ => _ : Task Bool).finish j t)
        rw [Task.finish_bind, Task.finish_log, Outcome.bind_ok]
        exact ih

/-! ## The contract -/

/-- What the dispatch of a native word comes to whose code was called where `i` is what is left of
the interpreter without the inputs. The result goes on top of what lies below the inputs. A stop
passes the handlers by; another fault is offered to them, and if none takes it, it is left as it is
when the engine raised it and otherwise is the cause of the fault that names the word. -/
inductive NativeEnds (e : Nested) (label : WordLabel) (hs : List Handler) (i : Interp) :
    Option (Except Fault (Option Val)) × Store → Outcome Unit → Prop
  | value {v s} : NativeEnds e label hs i (some (.ok (some v)), s)
      (.ended (.ok ()) { i with stack := i.stack.push v } s)
  | nothing {s} : NativeEnds e label hs i (some (.ok none), s) (.ended (.ok ()) i s)
  | stopped {f s} (hstop : f.isStop = true) :
      NativeEnds e label hs i (some (.error f), s) (.ended (.fault f) i s)
  | handled {f s j t} (hstop : f.isStop = false)
      (hh : Tried e label.name f hs i s (.ended (.ok true) j t)) :
      NativeEnds e label hs i (some (.error f), s) (.ended (.ok ()) j t)
  | engine {f s j t} (hstop : f.isStop = false) (hengine : f.isEngine = true)
      (hh : Tried e label.name f hs i s (.ended (.ok false) j t)) :
      NativeEnds e label hs i (some (.error f), s) (.ended (.fault f) j t)
  | wrapped {f s j t} (hstop : f.isStop = false) (hengine : f.isEngine = false)
      (hh : Tried e label.name f hs i s (.ended (.ok false) j t)) :
      NativeEnds e label hs i (some (.error f), s) (.ended (.fault
        (.nativeWord label.name (label.home.getD "") f.message (some f) j.call)) j t)
  | handlerExhausted {f s j t} (hstop : f.isStop = false)
      (hh : Tried e label.name f hs i s (.ended .exhausted j t)) :
      NativeEnds e label hs i (some (.error f), s) (.ended .exhausted j t)
  | handlerHung {f s t} (hstop : f.isStop = false)
      (hh : Tried e label.name f hs i s (.hung t)) :
      NativeEnds e label hs i (some (.error f), s) (.hung t)
  | hung {s} : NativeEnds e label hs i (none, s) (.hung s)

section Contract

variable {e : Nested} {label : WordLabel} {hs : List Handler} {i : Interp} {s : Store} {f : Fault}

/-- What becomes of the fault of a word's code. -/
theorem nativeEnds_recover :
    NativeEnds e label hs i (some (.error f), s) ((recover e label hs f).finish i s) := by
  unfold recover
  by_cases hstop : f.isStop = true
  · rw [if_pos hstop]
    exact .stopped hstop
  rw [if_neg hstop, Task.finish_bind, Task.finish_call]
  have hstop : f.isStop = false := Bool.eq_false_iff.mpr hstop
  have htried : Tried e label.name f hs i s ((tryHandlers e label.name f hs).finish i s) :=
    tried_tryHandlers
  cases hx : (tryHandlers e label.name f hs).finish i s with
  | hung t => exact .handlerHung hstop (hx ▸ htried)
  | ended r j t =>
    rw [hx] at htried
    cases r with
    | exhausted => exact .handlerExhausted hstop htried
    | fault g => exact absurd hx tryHandlers_ne_fault
    | ok handled =>
      cases handled with
      | true => exact .handled hstop htried
      | false =>
        rw [Outcome.bind_ok, if_neg Bool.false_ne_true]
        by_cases hengine : f.isEngine = true
        · rw [if_pos hengine]
          exact .engine hstop hengine htried
        · rw [if_neg hengine]
          exact .wrapped hstop (Bool.eq_false_iff.mpr hengine) htried

/-- The contract of native words. On a stack with the inputs on top, and options above them if they
are declared and there, the code is called on the inputs, deepest first, and on those options; with
what it comes to by itself the word ends as `NativeEnds` says. Nothing depends on the values below
the inputs. -/
theorem dispatch_native {hasOptions waits : Bool}
    {code : List Val → Options → Native (Option Val)} {below inputs : List Val} {options : Options}
    {l : Option Location}
    (hstack : i.stack.splitOptions hasOptions = (options, .ofList (below ++ inputs)))
    (hcode : (code inputs options).Asks Query.isDetached) :
    let w := Word.native label inputs.length hasOptions waits code hs
    NativeEnds e label hs { i.dispatching w l with stack := .ofList below }
      ((code inputs options).endsAlone s) ((dispatch e w l).finish i s) := by
  intro w
  have hcalled : (callNative e inputs.length hasOptions waits code).finish (i.dispatching w l) s =
      _ := finish_callNative_supplied rfl hstack
  rw [finish_dispatch, execute, finish_guarded, hcalled, finish_perform_detached hcode]
  rcases (code inputs options).endsAlone s with ⟨_ | (g | _ | v), t⟩
  · exact .hung
  · show NativeEnds _ _ _ _ _ ((Task.call _).finish _ _)
    rw [Task.finish_call]
    exact nativeEnds_recover
  · exact .nothing
  · exact .value

end Contract

/-- Handlers of which the first leaves a value and declines, and the second does nothing. -/
def Handler.litteringThenIdle : List Handler :=
  [fun f => .ask (.push (.bool true)) fun _ => .fail f, fun _ => .done ()]

/-- Code that fails with an error of its own. -/
def Native.failing (_ : List Val) (_ : Options) : Native (Option Val) := .fail (.error "failed")

theorem dispatch_native_handled :
    let i := Interp.optioned [.null, .int 1]
    let w := Word.native { name := "W" } 1 true false .failing Handler.litteringThenIdle
    i.stack.splitOptions true = (⟨[("k", .int 2)]⟩, .ofList ([.null] ++ [.int 1])) ∧
    (Native.failing [.int 1] ⟨[("k", .int 2)]⟩).Asks Query.isDetached ∧
    NativeEnds (nested 0) { name := "W" } Handler.litteringThenIdle
      { i.dispatching w none with stack := .ofList [.null] } (some (.error (.error "failed")), {})
      ((dispatch (nested 0) w none).finish i {}) := by
  intro i w
  have hstack : i.stack.splitOptions true =
    (⟨[("k", .int 2)]⟩, .ofList ([.null] ++ [.int 1])) := rfl
  have hcode : (Native.failing [.int 1] ⟨[("k", .int 2)]⟩).Asks Query.isDetached := trivial
  exact ⟨hstack, hcode, dispatch_native hstack hcode⟩

/-- A handler may begin on another stack than what lies below the inputs: one that does nothing
completes, and leaves what the handler before it has pushed. -/
theorem handler_may_find_other_stack :
    Handler.litteringThenIdle.getLast?.map (· (.error "failed")) = some (.done ()) ∧
    ∃ j t, (dispatch (nested 0) (.native { name := "W" } 0 false false .failing
        Handler.litteringThenIdle) none).finish .blank {} = .ended (.ok ()) j t ∧
      j.stack ≠ Interp.blank.stack := by
  have hrun : ((dispatch (nested 0) (.native { name := "W" } 0 false false .failing
      Handler.litteringThenIdle) none).finish .blank {}).isOk
        (fun j _ => j.stack.depth == 1) = true := by decide +kernel
  obtain ⟨j, t, hx, hj⟩ := Outcome.exists_of_isOk hrun
  refine ⟨rfl, j, t, hx, fun h => ?_⟩
  rw [h] at hj
  cases hj

end Wordstack
