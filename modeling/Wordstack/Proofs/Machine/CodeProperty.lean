import Wordstack.Proofs.Machine.Runs

/-!
# Properties of all code

Words, native code and sources are put together from a few operations on tasks. What these operations
pass on holds of all of them.

- **Operations on stores** (`Store.LeavesMemos`): most leave memos alone, and none takes an identity
  back.
- **Properties** (`CodeProperty`): the operations that have to pass a property on. Tasks that end at
  once and leave memos alone have it, and so have runs of memo words if the words behind them have.
- **Primitive tasks** (`CodeProperty.update`, `CodeProperty.pop`, …).
- **Nested work** (`CodeProperty.HoldsNested`).
- **Code** (`CodeProperty.perform`, `CodeProperty.execute`) and **runs** (`CodeProperty.runSource`):
  one lemma for each task, in the order of the definitions, as long as nested work has the property.
-/

namespace Wordstack

/-! ## Operations that leave memos alone -/

/-- Memos stay as they are, and no identity is taken back. -/
structure Store.LeavesMemos (s t : Store) : Prop where
  memos : t.memos = s.memos
  ids : s.nextId ≤ t.nextId

namespace Store

variable {s t u : Store}

namespace LeavesMemos

theorem refl (s : Store) : s.LeavesMemos s := ⟨rfl, Nat.le_refl _⟩

theorem trans (h : s.LeavesMemos t) (h' : t.LeavesMemos u) : s.LeavesMemos u :=
  ⟨h'.memos.trans h.memos, Nat.le_trans h.ids h'.ids⟩

theorem freshId (s : Store) : s.LeavesMemos s.freshId.2 := ⟨rfl, Nat.le_succ _⟩

theorem updateModule (s : Store) (m : Nat) (f : Module → Module) :
    s.LeavesMemos (s.updateModule m f) := ⟨rfl, Nat.le_refl _⟩

theorem addWord (s : Store) (m : Nat) (w : Word) : s.LeavesMemos (s.addWord m w) :=
  ⟨rfl, Nat.le_succ _⟩

theorem log (level : LogLevel) (scope message : String) :
    s.LeavesMemos (s.log level scope message) := by
  unfold Store.log
  split <;> exact ⟨rfl, Nat.le_refl _⟩

theorem variableCell (m : Nat) (name : String) (v : Val) :
    s.LeavesMemos (s.variableCell m name v).2 := by
  unfold Store.variableCell
  split <;> exact ⟨rfl, Nat.le_refl _⟩

theorem connect (pool : Nat) (name address : String) (timeout : Binary64) :
    s.LeavesMemos (s.connect pool name address timeout) := by
  unfold Store.connect
  split <;> exact ⟨rfl, Nat.le_refl _⟩

theorem disconnect (pool : Nat) (name : String) : s.LeavesMemos (s.disconnect pool name) := by
  unfold Store.disconnect
  split <;> exact ⟨rfl, Nat.le_refl _⟩

theorem addRemoteWords (m client : Nat) (runtime : String) (doc : ModuleDoc) :
    s.LeavesMemos (s.addRemoteWords m client runtime doc) := by
  unfold Store.addRemoteWords
  simp only
  refine trans (List.foldlRecOn (motive := s.LeavesMemos) doc.words _ (refl s) ?_)
    (updateModule _ m _)
  exact fun t h w _ => h.trans ((addWord t m _).trans (updateModule _ m _))

end LeavesMemos

end Store

/-! ## Properties -/

/-- A property of tasks that the operations from which code is put together pass on. -/
structure CodeProperty where
  Holds : {α : Type} → Task α → Prop
  /-- The machines whose memo words are considered. -/
  Machine : Nested → Prop
  /-- A task that ends at once and leaves memos alone. -/
  atOnce : ∀ {α : Type} {x : Task α},
    (∀ i s, ∃ r j t, x i s = .done r j t ∧ s.LeavesMemos t) → Holds x
  wait : ∀ reason, Holds (Task.wait reason)
  bind : ∀ {α β : Type} {x : Task α} {f : α → Task β},
    Holds x → (∀ a, Holds (f a)) → Holds (x >>= f)
  attempt : ∀ {α : Type} {x : Task α}, Holds x → Holds x.attempt
  call : ∀ {α : Type} {x : Task α}, Holds x → Holds x.call
  handOn : ∀ {α : Type} {x : Task α}, Holds x → Holds x.handOn
  callCode : ∀ {α : Type} (waits : Bool) {x : Task α}, Holds x → Holds (x.callCode waits)
  within : ∀ {α : Type} (ms : Binary64) {x : Task α}, Holds x → Holds (x.within ms)
  onOther : ∀ {α : Type} (i : Interp) {x : Task α}, Holds x → Holds (Task.onOther i x)
  addMemoWords : ∀ m w, Holds (Task.updateStore fun s => s.addMemoWords m w)
  refresh : ∀ {e : Nested} (cell : Nat) {w : Word}, Machine e → Holds (execute e w) →
    Holds (refresh cell (execute e w))

namespace CodeProperty

variable {K : CodeProperty} {e : Nested}

/-! ## Primitive tasks -/

theorem pure {α : Type} (a : α) : K.Holds (Pure.pure a : Task α) :=
  K.atOnce fun _ _ => ⟨_, _, _, rfl, .refl _⟩

theorem throw {α : Type} (f : Fault) : K.Holds (Task.throw f : Task α) :=
  K.atOnce fun _ _ => ⟨_, _, _, rfl, .refl _⟩

theorem exhausted {α : Type} : K.Holds (Task.exhausted : Task α) :=
  K.atOnce fun _ _ => ⟨_, _, _, rfl, .refl _⟩

theorem lift {α : Type} (o : Except Fault α) : K.Holds (Task.lift o) := by
  cases o with
  | ok a => exact pure a
  | error f => exact throw f

theorem look {α : Type} (f : Interp → Store → α) : K.Holds (Task.view f) :=
  K.atOnce fun _ _ => ⟨_, _, _, rfl, .refl _⟩

theorem update (f : Interp → Interp) : K.Holds (Task.update f) :=
  K.atOnce fun _ _ => ⟨_, _, _, rfl, .refl _⟩

theorem updateStore {f : Store → Store} (hf : ∀ s : Store, s.LeavesMemos (f s)) :
    K.Holds (Task.updateStore f) :=
  K.atOnce fun _ s => ⟨_, _, _, rfl, hf s⟩

theorem ofStore {α : Type} {f : Store → α × Store} (hf : ∀ s : Store, s.LeavesMemos (f s).2) :
    K.Holds (Task.ofStore f) :=
  K.atOnce fun _ s => ⟨_, _, _, rfl, hf s⟩

theorem ofStore? {α : Type} {f : Store → Except Fault (α × Store)}
    (hf : ∀ {s a t}, f s = .ok (a, t) → s.LeavesMemos t) : K.Holds (Task.ofStore? f) := by
  refine K.atOnce fun i s => ?_
  unfold Task.ofStore?
  cases h : f s with
  | ok p => exact ⟨_, _, _, rfl, hf h⟩
  | error g => exact ⟨_, _, _, rfl, .refl _⟩

theorem turn : K.Holds Task.turn := K.call (pure ())

theorem pop : K.Holds Task.pop := by
  refine K.atOnce fun i s => ?_
  unfold Task.pop
  cases i.stack.pop? with
  | some p => exact ⟨_, _, _, rfl, .refl _⟩
  | none => exact ⟨_, _, _, rfl, .refl _⟩

theorem popN (n : Nat) : K.Holds (Task.popN n) := by
  refine K.atOnce fun i s => ?_
  unfold Task.popN
  cases i.stack.popN? n with
  | some p => exact ⟨_, _, _, rfl, .refl _⟩
  | none => exact ⟨_, _, _, rfl, .refl _⟩

theorem takeOptions : K.Holds takeOptions := by
  refine K.atOnce fun i s => ?_
  unfold Wordstack.takeOptions
  split
  · exact ⟨_, _, _, rfl, .refl _⟩
  · exact ⟨_, _, _, rfl, .refl _⟩

theorem current (operation : String) : K.Holds (Task.current operation) := by
  refine K.atOnce fun i s => ?_
  unfold Task.current
  cases i.current? with
  | some m => exact ⟨_, _, _, rfl, .refl _⟩
  | none => exact ⟨_, _, _, rfl, .refl _⟩

theorem updateCurrent (operation : String) (f : Module → Module) :
    K.Holds (Task.updateCurrent operation f) :=
  K.bind (current operation) fun m => updateStore fun s => .updateModule s m f

theorem register (m : Nat) : K.Holds (Task.register m) :=
  K.atOnce fun _ _ => ⟨_, _, _, rfl, .refl _⟩

theorem log (level : LogLevel) (scope message : String) : K.Holds (Task.log level scope message) :=
  updateStore fun _ => .log level scope message

/-- Joining a run changes nothing. -/
theorem join (cell number : Nat) : K.Holds (Task.join cell number) := by
  have houtcome : ∀ x : Option (Except Fault Val) → Task Val, (∀ o, x (some o) = Task.lift o) →
      x none = Task.exhausted →
      K.Holds ((Task.view fun _ s => (s.memo cell).outcome? number) >>= x) := by
    intro x hsome hnone
    refine K.bind (look _) fun outcome => ?_
    cases outcome with
    | some o => exact hsome o ▸ lift o
    | none => exact hnone ▸ exhausted
  unfold Task.join
  refine K.bind turn fun _ => K.bind (look _) fun found => ?_
  split
  · exact K.bind turn fun _ => houtcome _ (fun _ => rfl) rfl
  · exact K.bind (K.wait _) fun _ => houtcome _ (fun _ => rfl) rfl

/-! ## Nested work -/

/-- Nested work has the property, and it is that of a machine that is considered. -/
structure HoldsNested (K : CodeProperty) (e : Nested) : Prop where
  machine : K.Machine e
  run : ∀ source origin, K.Holds (e.run source origin)
  send : ∀ url method body, K.Holds (e.send url method body)

/-! ## Modules -/

theorem initializeModule (he : K.HoldsNested e) (m : Nat) : K.Holds (initializeModule e m) := by
  unfold Wordstack.initializeModule
  refine K.bind (look _) fun skip => ?_
  split
  · exact pure ()
  refine K.bind (look _) fun module => K.bind (update _) fun _ => ?_
  refine K.bind (K.attempt (K.call (he.run _ _))) fun outcome => ?_
  cases outcome with
  | ok =>
    refine K.bind (updateStore ?_) fun _ => K.bind (update _) fun _ => pure ()
    exact fun _ => ⟨rfl, Nat.le_refl _⟩
  | error f => exact K.bind (update _) fun _ => throw _

theorem useModules (he : K.HoldsNested e) (imports : List (String × String)) :
    K.Holds (useModules e imports) := by
  induction imports with
  | nil => exact pure ()
  | cons imp rest ih =>
    obtain ⟨name, qualifier⟩ := imp
    unfold Wordstack.useModules
    refine K.bind (look _) fun i => K.bind (lift _) fun m => ?_
    refine K.bind (K.call (initializeModule he m)) fun _ => ?_
    exact K.bind (updateCurrent _ _) fun _ => ih

theorem importModule (he : K.HoldsNested e) (m : Nat) (qualifier : String) :
    K.Holds (importModule e m qualifier) := by
  unfold Wordstack.importModule
  exact K.bind (register m) fun _ => K.bind (look _) fun _ => K.call (useModules he _)

/-! ## Other runtimes -/

theorem callRemote (he : K.HoldsNested e) (client : Nat) (method : Method) (request : Json) :
    K.Holds (callRemote e client method request) := by
  unfold Wordstack.callRemote
  refine K.bind (look _) fun c => ?_
  split
  · exact throw _
  · exact K.bind (he.send _ _ _) fun _ => lift _

theorem executeRemote (he : K.HoldsNested e) (client : Nat) (word : String) (vs : List Val) :
    K.Holds (executeRemote e client word vs) := by
  unfold Wordstack.executeRemote remoteStack
  refine K.bind (lift _) fun xs => K.bind (callRemote he _ _ _) fun reply => ?_
  exact K.bind (look _) fun _ => lift _

theorem discover (he : K.HoldsNested e) (r : RemoteModule) : K.Holds (r.discover e) := by
  unfold RemoteModule.discover describeRemote
  split
  · exact pure _
  refine K.bind (look _) fun name => ?_
  refine K.bind (K.bind (callRemote he _ _ _) fun _ => pure _) fun doc => ?_
  refine K.bind (updateStore fun _ => .addRemoteWords _ _ _ _) fun _ => ?_
  exact K.bind (log _ _ _) fun _ => pure _

theorem useRemoteModules (he : K.HoldsNested e) (client : Nat) (runtime qualifier : String)
    (names : List String) : K.Holds (useRemoteModules e client runtime qualifier names) := by
  induction names with
  | nil => exact pure ()
  | cons name rest ih =>
    unfold Wordstack.useRemoteModules
    refine K.bind (ofStore fun _ => ⟨rfl, Nat.le_refl _⟩) fun module => ?_
    refine K.bind (discover he _) fun r => ?_
    exact K.bind (importModule he _ _) fun _ => ih

/-! ## Native code -/

theorem answer (he : K.HoldsNested e) (q : Query) : K.Holds (answer e q) := by
  cases q with
  | pop => exact pop
  | peek =>
    refine K.atOnce fun i s => ?_
    simp only [Wordstack.answer]
    cases i.stack.top? with
    | some v => exact ⟨_, _, _, rfl, .refl _⟩
    | none => exact ⟨_, _, _, rfl, .refl _⟩
  | popN n => exact popN n
  | run source => exact K.call (he.run _ _)
  | attempt source =>
    refine K.bind (K.attempt (K.call (he.run _ _))) fun outcome => ?_
    cases outcome with
    | ok => exact pure _
    | error f => exact pure _
  | findWord name =>
    refine K.bind (look _) fun found => K.bind (lift _) fun w => ?_
    split
    · exact pure _
    · exact K.bind (ofStore .freshId) fun _ => pure _
  | findModule name =>
    refine K.bind (look _) fun i => K.bind (lift _) fun m => ?_
    exact K.bind (look _) fun _ => pure _
  | variableNamed name =>
    refine K.bind (current _) fun m => ?_
    exact K.bind (ofStore fun _ => .variableCell _ _ _) fun _ => pure _
  | requireScope operation => exact K.bind (current _) fun _ => pure ()
  | exportNames names => exact updateCurrent _ _
  | useModules imports => exact K.call (useModules he imports)
  | stamp label => exact K.bind (ofStore fun _ => ⟨rfl, Nat.le_refl _⟩) fun _ => update _
  | store cell v => exact updateStore fun _ => ⟨rfl, Nat.le_refl _⟩
  | print line => exact updateStore fun _ => ⟨rfl, Nat.le_refl _⟩
  | fresh => exact ofStore .freshId
  | turn => exact turn
  | never => exact K.bind (K.wait _) fun _ => pure ()
  | connect pool name address =>
    exact K.atOnce fun _ _ => ⟨_, _, _, rfl, .connect _ _ _ _⟩
  | disconnect pool name =>
    exact K.atOnce fun _ _ => ⟨_, _, _, rfl, .disconnect _ _⟩
  | useRemote pool runtime qualifier modules =>
    refine K.bind (look _) fun found => ?_
    cases found with
    | some client => exact useRemoteModules he client runtime qualifier modules
    | none => exact throw _
  | push _ | setStack _ | startProfile | stopProfile => exact update _
  | top | stack | callLocation | topInput | fetch _ | profile | connections _ => exact look _

theorem perform (he : K.HoldsNested e) {α : Type} (x : Native α) : K.Holds (perform e x) := by
  induction x with
  | done a => exact pure a
  | fail f => exact throw f
  | ask q next ih => exact K.bind (answer he q) ih

/-! ## Failures -/

theorem tryHandlers (he : K.HoldsNested e) (name : String) (f : Fault) (hs : List Handler) :
    K.Holds (tryHandlers e name f hs) := by
  induction hs with
  | nil => exact pure _
  | cons h rest ih =>
    unfold Wordstack.tryHandlers
    refine K.bind (K.attempt (K.callCode false (perform he (h f)))) fun outcome => ?_
    cases outcome with
    | ok => exact pure _
    | error f' => exact K.bind (log _ _ _) fun _ => ih

theorem recover (he : K.HoldsNested e) (label : WordLabel) (hs : List Handler) (f : Fault) :
    K.Holds (recover e label hs f) := by
  unfold Wordstack.recover
  split
  · exact throw _
  refine K.bind (K.call (tryHandlers he _ _ _)) fun handled => ?_
  split
  · exact pure ()
  split
  · exact throw _
  · exact K.bind (look _) fun _ => throw _

theorem guarded (he : K.HoldsNested e) (label : WordLabel) (hs : List Handler) {x : Task Unit}
    (hx : K.Holds x) : K.Holds (guarded e label hs x) := by
  unfold Wordstack.guarded
  refine K.bind (K.attempt hx) fun outcome => ?_
  cases outcome with
  | ok => exact pure ()
  | error f => exact K.call (recover he label hs f)

/-! ## Words -/

theorem callNative (he : K.HoldsNested e) (inputs : Nat) (hasOptions waits : Bool)
    (code : List Val → Options → Native (Option Val)) :
    K.Holds (callNative e inputs hasOptions waits code) := by
  unfold Wordstack.callNative
  have hrest : ∀ options, K.Holds (do
      let args ← Task.popN inputs
      let result ← Task.callCode waits (Wordstack.perform e (code args options))
      Task.pushSome result : Task Unit) := by
    intro options
    refine K.bind (popN inputs) fun args => ?_
    refine K.bind (K.callCode waits (perform he _)) fun result => ?_
    cases result with
    | some v => exact update _
    | none => exact pure ()
  split
  · exact K.bind takeOptions hrest
  · exact hrest .empty

theorem closeArray : K.Holds closeArray := by
  unfold Wordstack.closeArray
  refine K.bind (look _) fun i => ?_
  split
  · exact throw _
  · refine K.bind (update _) fun _ => ?_
    split
    · exact throw _
    · exact update _

theorem openModule (name : String) : K.Holds (openModule name) := by
  unfold Wordstack.openModule
  split
  · exact update _
  refine K.bind (current _) fun parent => K.bind (look _) fun module => ?_
  split
  · exact update _
  · exact K.bind (ofStore fun _ => ⟨rfl, Nat.le_refl _⟩) fun child => update _

theorem closeModule : K.Holds closeModule := by
  unfold Wordstack.closeModule
  refine K.bind (look _) fun i => ?_
  split
  · exact throw _
  · exact update _

mutual
theorem execute (he : K.HoldsNested e) : ∀ w : Word, K.Holds (execute e w)
  | .constant _ v => by unfold Wordstack.execute; exact update _
  | .definition label body => by
    unfold Wordstack.execute
    exact K.bind (look _) fun call => executeBody he label.name call body
  | .native label inputs hasOptions waits code hs => by
    unfold Wordstack.execute
    exact guarded he label hs (callNative he inputs hasOptions waits code)
  | .direct label waits code hs => by
    unfold Wordstack.execute
    exact guarded he label hs (K.callCode waits (perform he code))
  | .memo _ cell w => by
    unfold Wordstack.execute
    refine K.bind (look _) fun value => ?_
    cases value with
    | some v => exact update _
    | none =>
      exact K.bind (K.call (K.refresh cell he.machine (execute he w))) fun _ => update _
  | .memoRefresh _ cell w => by
    unfold Wordstack.execute
    exact K.bind (K.call (K.refresh cell he.machine (execute he w))) fun _ => pure ()
  | .memoReload _ cell w => by
    unfold Wordstack.execute
    exact K.bind (K.call (K.refresh cell he.machine (execute he w))) fun _ => update _
  | .openArray => by unfold Wordstack.execute; exact update _
  | .closeArray => by unfold Wordstack.execute; exact closeArray
  | .openModule name => by unfold Wordstack.execute; exact openModule name
  | .closeModule => by unfold Wordstack.execute; exact closeModule
  | .remote label client _ _ => by
    unfold Wordstack.execute
    refine guarded he label [] (K.bind (look _) fun vs => ?_)
    exact K.bind (executeRemote he client label.name vs) fun _ => update _

theorem executeBody (he : K.HoldsNested e) (name : String) (call : Option Location) :
    ∀ body : List (Word × Location), K.Holds (executeBody e name call body)
  | [] => by unfold Wordstack.executeBody; exact pure ()
  | (w, location) :: rest => by
    unfold Wordstack.executeBody
    refine K.bind (K.attempt (K.call (K.bind (update _) fun _ => K.call (execute he w))))
      fun outcome => ?_
    cases outcome with
    | ok => exact executeBody he name call rest
    | error f =>
      simp only
      split
      · exact throw _
      · exact throw _
end

theorem dispatch (he : K.HoldsNested e) (w : Word) (location : Option Location) :
    K.Holds (dispatch e w location) :=
  K.bind (update _) fun _ => K.call (execute he w)

/-! ## Runs -/

theorem drainPending (he : K.HoldsNested e) (bound : Nat) : K.Holds (drainPending e bound) := by
  induction bound with
  | zero => exact pure ()
  | succ bound ih =>
    unfold Wordstack.drainPending
    refine K.bind (look _) fun i => ?_
    split
    · exact pure ()
    refine K.bind (update _) fun _ => ?_
    refine K.bind (K.attempt (K.call (initializeModule he _))) fun outcome => ?_
    cases outcome with
    | ok => exact ih
    | error f => exact K.bind (update _) fun _ => throw _

theorem initializePending (he : K.HoldsNested e) : K.Holds (initializePending e) :=
  K.bind (look _) fun _ => drainPending he _

theorem handleWord (he : K.HoldsNested e) (w : Word) (location : Location) :
    K.Holds (handleWord e w location) := by
  unfold Wordstack.handleWord
  refine K.bind (look _) fun i => ?_
  split
  · exact update _
  · exact K.call (dispatch he w _)

theorem handleImmediate (he : K.HoldsNested e) (w : Word) (location : Location) :
    K.Holds (handleImmediate e w location) :=
  K.bind (update _) fun _ => K.call (dispatch he w _)

theorem startDefinition (t : Token) : K.Holds (startDefinition t) := by
  unfold Wordstack.startDefinition
  refine K.bind (look _) fun i => ?_
  split
  · exact throw _
  · exact update _

theorem endDefinition (t : Token) : K.Holds (endDefinition t) := by
  unfold Wordstack.endDefinition
  refine K.bind (look _) fun i => ?_
  split
  · split
    · refine K.bind (current _) fun m => ?_
      exact K.bind (K.addMemoWords m _) fun _ => update _
    · refine K.bind (current _) fun m => K.bind (updateStore ?_) fun _ => update _
      exact fun s => .addWord s m _
  · exact throw _

theorem handleToken (he : K.HoldsNested e) (t : Token) : K.Holds (handleToken e t) := by
  unfold Wordstack.handleToken
  split
  · exact K.handOn (handleWord he _ _)
  · exact K.handOn (handleWord he _ _)
  · exact pure ()
  · exact K.handOn (handleWord he _ _)
  · exact K.handOn (handleWord he _ _)
  · exact K.handOn (handleImmediate he _ _)
  · exact K.handOn (handleImmediate he _ _)
  · exact startDefinition t
  · exact startDefinition t
  · exact endDefinition t
  · refine K.bind (look _) fun found => K.bind (lift _) fun w => ?_
    exact K.handOn (handleWord he w _)
  · refine K.bind (look _) fun i => ?_
    split
    · exact throw _
    · exact pure ()

theorem runTokens (he : K.HoldsNested e) (bound : Nat) (sc : Scanner) :
    K.Holds (runTokens e bound sc) := by
  induction bound generalizing sc with
  | zero => exact exhausted
  | succ bound ih =>
    unfold Wordstack.runTokens
    split
    · exact pure _
    · refine K.bind (K.attempt (K.call (handleToken he _))) fun outcome => ?_
      cases outcome with
      | error f => exact pure _
      | ok =>
        refine K.bind (update _) fun _ => ?_
        split
        · exact pure _
        · exact ih _

theorem runRecovering (he : K.HoldsNested e) (h : Handler) (left used : Nat) (sc : Scanner) :
    K.Holds (runRecovering e h left used sc) := by
  induction left generalizing used sc with
  | zero => exact K.bind (look _) fun _ => throw _
  | succ left ih =>
    unfold Wordstack.runRecovering
    refine K.bind (K.call (runTokens he _ sc)) fun stopped => ?_
    cases stopped with
    | none => exact pure ()
    | some stopped => exact K.bind (K.callCode false (perform he _)) fun _ => ih _ _

theorem runScanner (he : K.HoldsNested e) (sc : Scanner) : K.Holds (runScanner e sc) := by
  unfold Wordstack.runScanner
  refine K.bind (look _) fun i => ?_
  split
  · exact K.call (runRecovering he _ _ _ sc)
  · refine K.bind (K.call (runTokens he _ sc)) fun stopped => ?_
    split
    · exact pure ()
    · exact throw _

theorem checkBrackets (isOutermost : Bool) : K.Holds (checkBrackets isOutermost) := by
  unfold Wordstack.checkBrackets
  refine K.bind (look _) fun i => ?_
  split
  · exact throw _
  · exact pure ()

theorem ownRun (he : K.HoldsNested e) (isOutermost : Bool) (sc : Scanner) :
    K.Holds (Task.ownRun e isOutermost sc) := by
  unfold Task.ownRun
  refine K.bind (look _) fun saved => K.bind (update _) fun _ => ?_
  refine K.bind (K.attempt (K.bind (runScanner he _) fun _ => checkBrackets _)) fun outcome => ?_
  cases outcome with
  | ok => exact update _
  | error f => exact K.bind (update _) fun _ => throw _

theorem runSource (he : K.HoldsNested e) (source : String) (origin : Location) :
    K.Holds (runSource e source origin) := by
  refine K.bind (look _) fun isOutermost => ?_
  have hrun := ownRun he isOutermost (Scanner.start source origin)
  cases isOutermost with
  | true => exact K.bind (K.call (initializePending he)) fun _ => hrun
  | false => exact hrun

theorem executeWord (he : K.HoldsNested e) (name : String) : K.Holds (executeWord e name) := by
  unfold Wordstack.executeWord
  refine K.bind (K.call (initializePending he)) fun _ => K.bind (look _) fun found => ?_
  exact K.bind (lift _) fun w => K.call (dispatch he w none)

end CodeProperty

end Wordstack
