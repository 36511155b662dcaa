import Wordstack.Proofs.Machine.Calls
import Wordstack.Proofs.Machine.Mirrored

/-!
# Machines with an observer

A machine that does what another one does, but keeps what an observer says where that one keeps its
profile.

- **Observers** (`Observer`): what is kept when a word is dispatched, and when native code asks for
  something to be done with the profile.
- **Observed machines** (`Observer.answer`, `Observer.execute`, `Observer.runSource`, …): one
  definition for each task that dispatches words or runs native code.
- **Reflections** (`Observer.Reflects`): a map from what is kept to profiles that goes along with
  the observer. Through the map, the observed machine does what the machine does: one lemma for each
  task, in the order of the definitions.
- **The profile itself** (`Observer.call_profiler`): a machine that is observed by its own profiler
  is the machine.
-/

namespace Wordstack

variable {α : Type} {φ : Profile → Profile}

/-! ## Observed machines -/

/-- What is kept in the place of a profile. -/
structure Observer where
  /-- When a word is dispatched. -/
  dispatch : Word → Profile → Profile
  start : Profile → Profile
  stop : Profile → Profile
  stamp : String → Binary64 → Profile → Profile
  /-- The profile as a record. -/
  record : Profile → Val

namespace Observer

/-- The observer that keeps the profile. -/
def profiler : Observer where
  dispatch w p := if w.isProfiled then p.count w.qualifiedName else p
  start := Profile.start
  stop := Profile.stop
  stamp label time p := p.stamp label time
  record := Profile.toRecord

section

variable (o : Observer) (e : Nested)

@[inherit_doc Wordstack.answer]
def answer : (q : Query) → Task q.Reply
  | .startProfile => Task.update fun i => { i with profile := o.start i.profile }
  | .stopProfile => Task.update fun i => { i with profile := o.stop i.profile }
  | .stamp label => do
    let time ← Task.ofStore Store.readClock
    Task.update fun i => { i with profile := o.stamp label time i.profile }
  | .profile => Task.view fun i _ => o.record i.profile
  | q => Wordstack.answer e q

@[inherit_doc Wordstack.perform]
def perform {α : Type} : Native α → Task α
  | .done a => pure a
  | .fail f => Task.throw f
  | .ask q next => do
    let r ← o.answer e q
    perform (next r)

@[inherit_doc Wordstack.tryHandlers]
def tryHandlers (name : String) (f : Fault) : List Handler → Task Bool
  | [] => return false
  | h :: rest => do
    match ← Task.attempt (Task.callCode false (o.perform e (h f))) with
    | .ok _ => return true
    | .error f' =>
      Task.log .debug "word" ("error handler for " ++ name ++ " declined: " ++ f'.message)
      tryHandlers name f rest

@[inherit_doc Wordstack.recover]
def recover (label : WordLabel) (handlers : List Handler) (f : Fault) : Task Unit := do
  if f.isStop then Task.throw f
  else if ← Task.call (o.tryHandlers e label.name f handlers) then return
  else if f.isEngine then Task.throw f
  else
    let call ← Task.view fun i _ => i.call
    Task.throw (.nativeWord label.name (label.home.getD "") f.message (some f) call)

@[inherit_doc Wordstack.guarded]
def guarded (label : WordLabel) (handlers : List Handler) (x : Task Unit) : Task Unit := do
  match ← Task.attempt x with
  | .ok _ => return
  | .error f => Task.call (o.recover e label handlers f)

@[inherit_doc Wordstack.callNative]
def callNative (inputs : Nat) (hasOptions waits : Bool)
    (code : List Val → Options → Native (Option Val)) : Task Unit := do
  let options ← if hasOptions then takeOptions else pure Options.empty
  let args ← Task.popN inputs
  match ← Task.callCode waits (o.perform e (code args options)) with
  | some v => Task.push v
  | none => return

@[inherit_doc Wordstack.noteDispatch]
def noteDispatch (w : Word) (location : Option Location) : Task Unit :=
  Task.update fun i => { i with profile := o.dispatch w i.profile, call := location }

mutual
@[inherit_doc Wordstack.execute]
def execute : Word → Task Unit
  | .constant _ v => Task.push v
  | .definition label body => do
    let call ← Task.view fun i _ => i.call
    executeBody label.name call body
  | .native label inputs hasOptions waits code handlers =>
    o.guarded e label handlers (o.callNative e inputs hasOptions waits code)
  | .direct label waits code handlers =>
    o.guarded e label handlers (Task.callCode waits (o.perform e code))
  | .memo _ cell word => do
    match ← Task.view fun _ s => (s.memo cell).value with
    | some v => Task.push v
    | none => Task.push (← Task.call (refresh cell (execute word)))
  | .memoRefresh _ cell word => do
    let _ ← Task.call (refresh cell (execute word))
  | .memoReload _ cell word => do Task.push (← Task.call (refresh cell (execute word)))
  | .openArray => Task.update fun i => { i with marks := i.stack.depth :: i.marks }
  | .closeArray => closeArray
  | .openModule name => openModule name
  | .closeModule => closeModule
  | .remote label client _ _ =>
    o.guarded e label [] do Task.setStack (← executeRemote e client label.name (← Task.stack))

@[inherit_doc Wordstack.executeBody]
def executeBody (name : String) (call : Option Location) : List (Word × Location) → Task Unit
  | [] => pure ()
  | (w, location) :: rest => do
    match ← Task.attempt (Task.call do
        o.noteDispatch w (some location)
        Task.call (execute w)) with
    | .ok _ => executeBody name call rest
    | .error f =>
      if f.isStop then Task.throw f
      else
        Task.throw (.wordExecution ("Error executing " ++ name) (some f) call (some location))
end

@[inherit_doc Wordstack.dispatch]
def dispatchWord (w : Word) (location : Option Location) : Task Unit := do
  o.noteDispatch w location
  Task.call (o.execute e w)

@[inherit_doc Wordstack.handleWord]
def handleWord (w : Word) (location : Location) : Task Unit := do
  let i ← Task.interp
  match i.compiling, i.definition with
  | true, some d => Task.update fun i => { i with definition := some (compile w location d) }
  | _, _ => Task.call (o.dispatchWord e w (some location))

@[inherit_doc Wordstack.handleImmediate]
def handleImmediate (w : Word) (location : Location) : Task Unit := do
  Task.update fun i =>
    if i.compiling then { i with definition := i.definition.map (compile w location) } else i
  Task.call (o.dispatchWord e w (some location))

@[inherit_doc Wordstack.handleToken]
def handleToken (t : Token) : Task Unit := do
  match t.kind with
  | .str => Task.handOn (o.handleWord e (.constant { name := "<string>" } (.str t.text)) t.location)
  | .dotSymbol =>
    Task.handOn (o.handleWord e (.constant { name := "<dot-symbol>" } (.str t.text)) t.location)
  | .comment => return
  | .startArray => Task.handOn (o.handleWord e .openArray t.location)
  | .endArray => Task.handOn (o.handleWord e .closeArray t.location)
  | .startModule => Task.handOn (o.handleImmediate e (.openModule t.text) t.location)
  | .endModule => Task.handOn (o.handleImmediate e .closeModule t.location)
  | .startDef | .startMemo => startDefinition t
  | .endDef => endDefinition t
  | .word =>
    let w ← Task.lift (← Task.view fun i s => i.resolve s t.text (some t.location))
    Task.handOn (o.handleWord e w t.location)
  | .eos =>
    let i ← Task.interp
    if i.compiling then
      Task.throw (.missingSemicolon i.topInput (i.previous.or (some t.location)))

@[inherit_doc Wordstack.runTokens]
def runTokens (bound : Nat) (sc : Scanner) : Task (Option (Fault × Scanner)) := do
  match bound with
  | 0 => Task.exhausted
  | bound + 1 =>
    match sc.next with
    | (.error f, sc) => return some (f, sc)
    | (.ok t, sc) =>
      match ← Task.attempt (Task.call (o.handleToken e t)) with
      | .error f => return some (f, sc)
      | .ok _ =>
        Task.update fun i => { i with previous := some t.location }
        if t.kind = .eos then return none else runTokens bound sc

@[inherit_doc Wordstack.runRecovering]
def runRecovering (h : Handler) (left used : Nat) (sc : Scanner) : Task Unit := do
  match left with
  | 0 =>
    let i ← Task.interp
    Task.throw (.tooManyAttempts i.topInput (Binary64.ofInt (used + 1 : Nat)) i.maxAttempts)
  | left + 1 =>
    match ← Task.call (o.runTokens e (sc.rest.length + 1) sc) with
    | none => return
    | some (f, sc) =>
      Task.callCode false (o.perform e (h f))
      runRecovering h left (used + 1) sc

@[inherit_doc Wordstack.runScanner]
def runScanner (sc : Scanner) : Task Unit := do
  let i ← Task.interp
  match i.recovery with
  | some h => Task.call (o.runRecovering e h (attemptsAllowed i.maxAttempts) 0 sc)
  | none =>
    match ← Task.call (o.runTokens e (sc.rest.length + 1) sc) with
    | none => return
    | some (f, _) => Task.throw f

@[inherit_doc Wordstack.runSource]
def runSource (source : String) (origin : Location) : Task Unit := do
  let isOutermost ← Task.view fun i _ => i.inputs.isEmpty
  if isOutermost then Task.call (initializePending e)
  let sc := Scanner.start source origin
  let saved ← Task.view fun i _ => i.transient
  Task.update fun i => { i with inputs := sc.input :: i.inputs }
  let outcome ← Task.attempt (do o.runScanner e sc; checkBrackets isOutermost)
  match outcome with
  | .ok _ => Task.update fun i => { i with inputs := i.inputs.tail }
  | .error f =>
    Task.update fun i => { i.restore saved with inputs := i.inputs.tail }
    Task.throw f

@[inherit_doc Wordstack.executeWord]
def executeWord (name : String) : Task Unit := do
  Task.call (initializePending e)
  let w ← Task.lift (← Task.view fun i s => i.resolve s name none)
  Task.call (o.dispatchWord e w none)

end

/-- Observed runs that are nested at most `depth` deep. Other runtimes are not observed. -/
def nested (o : Observer) : Nat → Nested
  | 0 => Wordstack.nested 0
  | depth + 1 =>
    ⟨fun source origin => o.runSource (o.nested depth) source origin,
     (Wordstack.nested (depth + 1)).send⟩

/-- What a call asks for. -/
def call (o : Observer) (e : Nested) : Call → Task Unit
  | .run source origin => o.runSource e source origin
  | .word name => o.executeWord e name
  | .use imports => useModules e imports
  | .load m => initializeModule e m

/-! ## Reflections -/

/-- What is kept stands for a profile, which changes as the observer says. -/
structure Reflects (o : Observer) (φ : Profile → Profile) : Prop where
  dispatch : ∀ w p, φ (o.dispatch w p) = profiler.dispatch w (φ p)
  start : ∀ p, φ (o.start p) = (φ p).start
  stop : ∀ p, φ (o.stop p) = (φ p).stop
  stamp : ∀ label time p, φ (o.stamp label time p) = (φ p).stamp label time
  record : ∀ p, o.record p = (φ p).toRecord

end Observer

namespace Task.Mirrored

variable {o : Observer} {e e' : Nested} (h : o.Reflects φ) (he : Nested.Mirrored φ e e')

include h he

theorem answerObserved (q : Query) : (o.answer e q).Mirrored φ (Wordstack.answer e' q) := by
  cases hq : q.isProfiling with
  | false =>
    have hanswer : o.answer e q = Wordstack.answer e q := by
      cases q <;> first | rfl | cases hq
    rw [hanswer]
    exact answer he q hq
  | true =>
    cases q with
    | startProfile => exact update fun i => by simp [Interp.mapProfile, h.start]
    | stopProfile => exact update fun i => by simp [Interp.mapProfile, h.stop]
    | stamp label =>
      exact (ofStore Store.readClock).bind fun time =>
        update fun i => by simp [Interp.mapProfile, h.stamp]
    | profile => exact view fun i s => (h.record i.profile).symm
    | _ => cases hq

theorem perform (x : Native α) : (o.perform e x).Mirrored φ (Wordstack.perform e' x) := by
  induction x with
  | done a => exact pure a
  | fail f => exact throw f
  | ask q next ih => exact (answerObserved h he q).bind ih

/-! ## Failures -/

theorem tryHandlers (name : String) (f : Fault) (handlers : List Handler) :
    (o.tryHandlers e name f handlers).Mirrored φ (Wordstack.tryHandlers e' name f handlers) := by
  induction handlers with
  | nil => exact pure _
  | cons k rest ih =>
    unfold Wordstack.tryHandlers Observer.tryHandlers
    refine ((perform h he (k f)).callCode false).attempt.bind fun outcome => ?_
    cases outcome with
    | ok => exact pure _
    | error f' => exact (log _ _ _).bind fun _ => ih

theorem recover (label : WordLabel) (handlers : List Handler) (f : Fault) :
    (o.recover e label handlers f).Mirrored φ (Wordstack.recover e' label handlers f) := by
  unfold Wordstack.recover Observer.recover
  split
  · exact throw f
  refine (tryHandlers h he _ f handlers).call.bind fun handled => ?_
  split
  · exact pure ()
  split
  · exact throw f
  · exact bind (view fun _ _ => rfl) fun _ => throw _

theorem guarded (label : WordLabel) (handlers : List Handler) {x y : Task Unit}
    (hx : x.Mirrored φ y) :
    (o.guarded e label handlers x).Mirrored φ (Wordstack.guarded e' label handlers y) := by
  refine hx.attempt.bind fun outcome => ?_
  cases outcome with
  | ok => exact pure ()
  | error f => exact (recover h he label handlers f).call

/-! ## Words -/

theorem callNative (inputs : Nat) (hasOptions waits : Bool)
    (code : List Val → Options → Native (Option Val)) :
    (o.callNative e inputs hasOptions waits code).Mirrored φ
      (Wordstack.callNative e' inputs hasOptions waits code) := by
  have hrest : ∀ options : Options, Task.Mirrored φ
      (do
        let args ← Task.popN inputs
        let result ← Task.callCode waits (o.perform e (code args options))
        Task.pushSome result)
      (do
        let args ← Task.popN inputs
        let result ← Task.callCode waits (Wordstack.perform e' (code args options))
        Task.pushSome result) := by
    refine fun options => (popN inputs).bind fun args =>
      ((perform h he _).callCode waits).bind fun result => ?_
    cases result with
    | some v => exact push v
    | none => exact pure ()
  unfold Wordstack.callNative Observer.callNative
  split
  · exact takeOptions.bind fun options => hrest options
  · exact hrest .empty

omit he in
theorem noteDispatch (w : Word) (l : Option Location) :
    (o.noteDispatch w l).Mirrored φ (Wordstack.noteDispatch w l) :=
  update fun i => by simp [Interp.mapProfile, h.dispatch, Observer.profiler]

omit h he

mutual
theorem execute (h : o.Reflects φ) (he : Nested.Mirrored φ e e') :
    ∀ w : Word, (o.execute e w).Mirrored φ (Wordstack.execute e' w)
  | .constant _ v => by
    unfold Wordstack.execute Observer.execute
    exact push v
  | .definition label body => by
    unfold Wordstack.execute Observer.execute
    exact bind (view fun _ _ => rfl) fun call => executeBody h he label.name call body
  | .native label inputs hasOptions waits code handlers => by
    unfold Wordstack.execute Observer.execute
    exact guarded h he label handlers (callNative h he inputs hasOptions waits code)
  | .direct label waits code handlers => by
    unfold Wordstack.execute Observer.execute
    exact guarded h he label handlers ((perform h he code).callCode waits)
  | .memo _ cell word => by
    unfold Wordstack.execute Observer.execute
    refine bind (view fun _ _ => rfl) fun value => ?_
    cases value with
    | some v => exact push v
    | none => exact (refresh cell (execute h he word)).call.bind fun v => push v
  | .memoRefresh _ cell word => by
    unfold Wordstack.execute Observer.execute
    exact (refresh cell (execute h he word)).call.bind fun _ => pure ()
  | .memoReload _ cell word => by
    unfold Wordstack.execute Observer.execute
    exact (refresh cell (execute h he word)).call.bind fun v => push v
  | .openArray => by
    unfold Wordstack.execute Observer.execute
    exact update fun _ => rfl
  | .closeArray => by
    unfold Wordstack.execute Observer.execute
    exact closeArray
  | .openModule name => by
    unfold Wordstack.execute Observer.execute
    exact openModule name
  | .closeModule => by
    unfold Wordstack.execute Observer.execute
    exact closeModule
  | .remote label client _ _ => by
    unfold Wordstack.execute Observer.execute
    refine guarded h he label [] (bind (view fun _ _ => rfl) fun vs => ?_)
    exact (executeRemote he client label.name vs).bind fun vs => update fun _ => rfl

theorem executeBody (h : o.Reflects φ) (he : Nested.Mirrored φ e e') (name : String)
    (call : Option Location) : ∀ body : List (Word × Location),
    (o.executeBody e name call body).Mirrored φ (Wordstack.executeBody e' name call body)
  | [] => by
    unfold Wordstack.executeBody Observer.executeBody
    exact pure ()
  | (w, location) :: rest => by
    unfold Wordstack.executeBody Observer.executeBody
    refine ((noteDispatch h w _).bind fun _ => (execute h he w).call).call.attempt.bind
      fun outcome => ?_
    cases outcome with
    | ok => exact executeBody h he name call rest
    | error f =>
      dsimp only
      split
      · exact throw _
      · exact throw _
end

include h he

theorem dispatch (w : Word) (l : Option Location) :
    (o.dispatchWord e w l).Mirrored φ (Wordstack.dispatch e' w l) :=
  (noteDispatch h w l).bind fun _ => (execute h he w).call

/-! ## Tokens -/

theorem handleWord (w : Word) (l : Location) :
    (o.handleWord e w l).Mirrored φ (Wordstack.handleWord e' w l) := by
  unfold Wordstack.handleWord Observer.handleWord
  refine interp fun i => ?_
  rw [show (i.mapProfile φ).compiling = i.compiling from rfl,
    show (i.mapProfile φ).definition = i.definition from rfl]
  have hdispatch := (dispatch h he w (some l)).call
  cases i.compiling with
  | false => exact hdispatch
  | true =>
    cases i.definition with
    | none => exact hdispatch
    | some d => exact update fun _ => rfl

theorem handleImmediate (w : Word) (l : Location) :
    (o.handleImmediate e w l).Mirrored φ (Wordstack.handleImmediate e' w l) := by
  refine bind (update fun i => ?_) fun _ => (dispatch h he w _).call
  rw [show (i.mapProfile φ).compiling = i.compiling from rfl]
  split <;> rfl

theorem handleToken (k : Token) :
    (o.handleToken e k).Mirrored φ (Wordstack.handleToken e' k) := by
  unfold Wordstack.handleToken Observer.handleToken
  generalize k.kind = kind
  cases kind with
  | str | dotSymbol | startArray | endArray => exact (handleWord h he _ _).handOn
  | startModule | endModule => exact (handleImmediate h he _ _).handOn
  | comment => exact pure ()
  | startDef | startMemo => exact startDefinition k
  | endDef => exact endDefinition k
  | word =>
    refine bind (view fun _ _ => rfl) fun found => (lift found).bind fun w => ?_
    exact (handleWord h he w _).handOn
  | eos =>
    refine interp fun i => ?_
    rw [show (i.mapProfile φ).compiling = i.compiling from rfl]
    split
    · exact throw _
    · exact pure ()

theorem runTokens (bound : Nat) (sc : Scanner) :
    (o.runTokens e bound sc).Mirrored φ (Wordstack.runTokens e' bound sc) := by
  induction bound generalizing sc with
  | zero => exact exhausted
  | succ bound ih =>
    unfold Wordstack.runTokens Observer.runTokens
    generalize sc.next = next
    obtain ⟨read, sc⟩ := next
    cases read with
    | error f => exact pure _
    | ok t =>
      refine (handleToken h he t).call.attempt.bind fun outcome => ?_
      cases outcome with
      | error f => exact pure _
      | ok =>
        refine bind (update fun _ => rfl) fun _ => ?_
        split
        · exact pure none
        · exact ih sc

theorem runRecovering (k : Handler) (left used : Nat) (sc : Scanner) :
    (o.runRecovering e k left used sc).Mirrored φ (Wordstack.runRecovering e' k left used sc) := by
  induction left generalizing used sc with
  | zero => exact interp fun _ => throw _
  | succ left ih =>
    unfold Wordstack.runRecovering Observer.runRecovering
    refine (runTokens h he _ sc).call.bind fun stopped => ?_
    cases stopped with
    | none => exact pure ()
    | some p => exact ((perform h he (k p.1)).callCode false).bind fun _ => ih _ p.2

/-! ## Runs -/

theorem runScanner (sc : Scanner) :
    (o.runScanner e sc).Mirrored φ (Wordstack.runScanner e' sc) := by
  unfold Wordstack.runScanner Observer.runScanner
  refine interp fun i => ?_
  rw [show (i.mapProfile φ).recovery = i.recovery from rfl]
  cases i.recovery with
  | some k => exact (runRecovering h he k _ _ sc).call
  | none =>
    refine (runTokens h he _ sc).call.bind fun stopped => ?_
    cases stopped with
    | none => exact pure ()
    | some p => exact throw p.1

theorem runSource (source : String) (origin : Location) :
    (o.runSource e source origin).Mirrored φ (Wordstack.runSource e' source origin) := by
  unfold Wordstack.runSource Observer.runSource
  refine bind (view fun _ _ => rfl) fun isOutermost => ?_
  have hrun : ∀ sc : Scanner, Mirrored φ
      (do
        let saved ← Task.view fun i _ => i.transient
        Task.update fun i => { i with inputs := sc.input :: i.inputs }
        let outcome ← Task.attempt (do o.runScanner e sc; Wordstack.checkBrackets isOutermost)
        Task.closeRun saved outcome) (Task.ownRun e' isOutermost sc) := by
    refine fun sc => bind (view fun _ _ => rfl) fun saved => bind (update fun _ => rfl) fun _ => ?_
    refine ((runScanner h he sc).bind fun _ => checkBrackets isOutermost).attempt.bind
      fun outcome => ?_
    cases outcome with
    | ok => exact update fun _ => rfl
    | error f => exact bind (update fun _ => rfl) fun _ => throw f
  cases isOutermost with
  | true => exact (initializePending he).call.bind fun _ => hrun _
  | false => exact hrun _

theorem executeWord (name : String) :
    (o.executeWord e name).Mirrored φ (Wordstack.executeWord e' name) :=
  (initializePending he).call.bind fun _ => bind (view fun _ _ => rfl) fun found =>
    (lift found).bind fun w => (dispatch h he w none).call

theorem ofCall (c : Call) : (o.call e c).Mirrored φ (c.task e') := by
  cases c with
  | run source origin => exact runSource h he source origin
  | word name => exact executeWord h he name
  | use imports => exact useModules he imports
  | load m => exact initializeModule he m

omit he in
/-- At any depth, the machine is that of the observer but for profiles. -/
theorem nested (depth : Nat) : Nested.Mirrored φ (o.nested depth) (Wordstack.nested depth) := by
  induction depth with
  | zero => exact ⟨fun _ _ => exhausted, fun _ _ _ => exhausted⟩
  | succ depth ih => exact ⟨fun source origin => runSource h ih source origin,
      fun url method body => send _ url method body⟩

end Task.Mirrored

/-! ## Observed calls -/

namespace Observer

/-- A call does what it does under an observer that goes along with profiles. -/
theorem Reflects.call {o : Observer} (h : o.Reflects φ) (depth : Nat) (c : Call) (i : Interp)
    (s : Store) :
    c.task (Wordstack.nested depth) (i.mapProfile φ) s =
      (o.call (o.nested depth) c i s).mapProfile φ :=
  (Task.Mirrored.ofCall h (Task.Mirrored.nested h depth) c).steps i s

theorem profiler_reflects : profiler.Reflects id :=
  ⟨fun _ _ => rfl, fun _ => rfl, fun _ => rfl, fun _ _ _ => rfl, fun _ => rfl⟩

/-- Observed by its own profiler, a machine is the machine. -/
theorem call_profiler (depth : Nat) (c : Call) :
    profiler.call (profiler.nested depth) c = c.task (Wordstack.nested depth) :=
  funext fun i => funext fun s => by
    rw [← Step.mapProfile_id (profiler.call (profiler.nested depth) c i s)]
    exact (profiler_reflects.call depth c i s).symm

end Observer

end Wordstack
