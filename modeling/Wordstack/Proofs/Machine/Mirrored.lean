import Wordstack.Bridge.Network

/-!
# Tasks and profiles

Few tasks look at the profile of an interpreter. What the others do, they do with any profile.

- **Profiles of interpreters** (`Interp.mapProfile`) and **of steps** (`Step.mapProfile`).
- **Mirrored tasks** (`Task.Mirrored`): the same but for profiles, with one lemma for each operation
  of the monad.
- **Nested work** (`Nested.Mirrored`), and the tasks that neither dispatch words nor run native
  code: one lemma for each, in the order of the definitions. Requests come near no profile of the
  caller (`Task.Mirrored.send`), and of the queries only a few do (`Query.isProfiling`).
-/

namespace Wordstack

variable {α β : Type} {φ : Profile → Profile}

/-! ## Profiles -/

/-- The interpreter with its profile mapped. -/
def Interp.mapProfile (φ : Profile → Profile) (i : Interp) : Interp :=
  { i with profile := φ i.profile }

/-- The step with the profiles of its ends mapped. -/
def Step.mapProfile (φ : Profile → Profile) : Step α → Step α
  | done r i s => done r (i.mapProfile φ) s
  | pause w s resume => pause w s fun wake s => (resume wake s).mapProfile φ

/-- The second task does what the first one does, on interpreters with their profiles mapped. -/
structure Task.Mirrored (φ : Profile → Profile) (x y : Task α) : Prop where
  steps : ∀ i s, y (i.mapProfile φ) s = (x i s).mapProfile φ

/-! ## Steps -/

namespace Step

theorem mapProfile_id (x : Step α) : x.mapProfile id = x := by
  induction x with
  | done r i s => rfl
  | pause w s resume ih => exact congrArg _ (funext fun wake => funext fun s => ih wake s)

theorem mapProfile_bind {f g : α → Task β} (h : ∀ a, (f a).Mirrored φ (g a)) (x : Step α) :
    (x.mapProfile φ).bind g = (x.bind f).mapProfile φ := by
  induction x with
  | done r i s =>
    cases r with
    | ok a => exact (h a).steps i s
    | fault f => rfl
    | exhausted => rfl
  | pause w s resume ih => exact congrArg _ (funext fun wake => funext fun s => ih wake s)

theorem mapProfile_attempt (x : Step α) :
    (x.mapProfile φ).attempt = x.attempt.mapProfile φ := by
  induction x with
  | done r i s => cases r <;> rfl
  | pause w s resume ih => exact congrArg _ (funext fun wake => funext fun s => ih wake s)

theorem mapProfile_later (x : Step α) : (x.mapProfile φ).later = x.later.mapProfile φ := by
  induction x with
  | done r i s =>
    rw [mapProfile, later, later]
    split <;> rfl
  | pause w s resume ih => exact congrArg _ (funext fun wake => funext fun s => ih wake s)

theorem mapProfile_handedOn (x : Step α) :
    (x.mapProfile φ).handedOn = x.handedOn.mapProfile φ := by
  cases x with
  | done r i s =>
    rw [handedOn, ← mapProfile_later, ← mapProfile_later]
    rfl
  | pause w s resume => exact mapProfile_later _

theorem mapProfile_unlessRaised (x : Step α) :
    (x.mapProfile φ).unlessRaised = x.unlessRaised.mapProfile φ := by
  cases x with
  | done r i s =>
    cases r with
    | fault f => rfl
    | ok a => exact mapProfile_later (done (.ok a) i s)
    | exhausted => exact mapProfile_later (done .exhausted i s)
  | pause w s resume => exact mapProfile_later _

theorem mapProfile_within (ms : Binary64) (i : Interp) (x : Step α) :
    (x.mapProfile φ).within ms (i.mapProfile φ) = (x.within ms i).mapProfile φ := by
  induction x with
  | done r j s => cases r <;> rfl
  | pause w s resume ih =>
    refine congrArg _ (funext fun wake => funext fun s => ?_)
    simp only [ih]
    split <;> rfl

theorem mapProfile_restoring (i : Interp) (x : Step α) :
    x.restoring (i.mapProfile φ) = (x.restoring i).mapProfile φ := by
  induction x with
  | done r j s => cases r <;> rfl
  | pause w s resume ih => exact congrArg _ (funext fun wake => funext fun s => ih wake s)

end Step

/-! ## Tasks -/

namespace Task.Mirrored

variable {x y : Task α}

theorem pure (a : α) : Mirrored φ (Pure.pure a : Task α) (Pure.pure a) := ⟨fun _ _ => rfl⟩

theorem throw (f : Fault) : Mirrored φ (Task.throw f : Task α) (Task.throw f) := ⟨fun _ _ => rfl⟩

theorem exhausted : Mirrored φ (Task.exhausted : Task α) Task.exhausted := ⟨fun _ _ => rfl⟩

theorem bind {f g : α → Task β} (h : x.Mirrored φ y) (hf : ∀ a, (f a).Mirrored φ (g a)) :
    (x >>= f).Mirrored φ (y >>= g) := by
  refine ⟨fun i s => ?_⟩
  show (y (i.mapProfile φ) s).bind g = ((x i s).bind f).mapProfile φ
  rw [h.steps, Step.mapProfile_bind hf]

theorem attempt (h : x.Mirrored φ y) : x.attempt.Mirrored φ y.attempt := by
  refine ⟨fun i s => ?_⟩
  show (y (i.mapProfile φ) s).attempt = (x i s).attempt.mapProfile φ
  rw [h.steps, Step.mapProfile_attempt]

theorem lift (a : Except Fault α) : Mirrored φ (Task.lift a) (Task.lift a) := by
  cases a with
  | ok a => exact pure a
  | error f => exact throw f

theorem view {f g : Interp → Store → α} (h : ∀ i s, g (i.mapProfile φ) s = f i s) :
    Mirrored φ (Task.view f) (Task.view g) :=
  ⟨fun i s => by rw [Task.view, h]; rfl⟩

/-- The interpreter is given away with its profile. -/
theorem interp {f g : Interp → Task β} (h : ∀ i, (f i).Mirrored φ (g (i.mapProfile φ))) :
    (Task.interp >>= f).Mirrored φ (Task.interp >>= g) :=
  ⟨fun i s => (h i).steps i s⟩

theorem update {f g : Interp → Interp} (h : ∀ i, g (i.mapProfile φ) = (f i).mapProfile φ) :
    Mirrored φ (Task.update f) (Task.update g) :=
  ⟨fun i s => by rw [Task.update, h]; rfl⟩

theorem updateStore (f : Store → Store) : Mirrored φ (Task.updateStore f) (Task.updateStore f) :=
  ⟨fun _ _ => rfl⟩

theorem ofStore (f : Store → α × Store) : Mirrored φ (Task.ofStore f) (Task.ofStore f) :=
  ⟨fun _ _ => rfl⟩

theorem ofStore? (f : Store → Except Fault (α × Store)) :
    Mirrored φ (Task.ofStore? f) (Task.ofStore? f) := by
  refine ⟨fun i s => ?_⟩
  unfold Task.ofStore?
  cases f s <;> rfl

theorem wait (reason : Reason) : Mirrored φ (Task.wait reason) (Task.wait reason) :=
  ⟨fun _ _ => rfl⟩

theorem call (h : x.Mirrored φ y) : x.call.Mirrored φ y.call := by
  refine ⟨fun i s => ?_⟩
  show (y (i.mapProfile φ) s).later = (x i s).later.mapProfile φ
  rw [h.steps, Step.mapProfile_later]

theorem handOn (h : x.Mirrored φ y) : x.handOn.Mirrored φ y.handOn := by
  refine ⟨fun i s => ?_⟩
  show (y (i.mapProfile φ) s).handedOn = (x i s).handedOn.mapProfile φ
  rw [h.steps, Step.mapProfile_handedOn]

theorem callCode (waits : Bool) (h : x.Mirrored φ y) :
    (x.callCode waits).Mirrored φ (y.callCode waits) := by
  cases waits with
  | true => exact h.call
  | false =>
    refine ⟨fun i s => ?_⟩
    show (y (i.mapProfile φ) s).unlessRaised = (x i s).unlessRaised.mapProfile φ
    rw [h.steps, Step.mapProfile_unlessRaised]

theorem turn : Mirrored φ Task.turn Task.turn := (pure ()).call

theorem within (ms : Binary64) (h : x.Mirrored φ y) : (x.within ms).Mirrored φ (y.within ms) := by
  refine ⟨fun i s => ?_⟩
  unfold Task.within
  rw [h.steps]
  split
  · exact Step.mapProfile_within ms i _
  · exact Step.mapProfile_bind (fun a => pure (some a)) _

/-- A task on another interpreter does not come near the profile. -/
theorem onOther (other : Interp) (x : Task α) :
    Mirrored φ (Task.onOther other x) (Task.onOther other x) :=
  ⟨fun i s => Step.mapProfile_restoring i (x other s)⟩

theorem log (level : LogLevel) (scope message : String) :
    Mirrored φ (Task.log level scope message) (Task.log level scope message) :=
  updateStore _

theorem push (v : Val) : Mirrored φ (Task.push v) (Task.push v) := update fun _ => rfl

theorem pop : Mirrored φ Task.pop Task.pop := by
  refine ⟨fun i s => ?_⟩
  unfold Task.pop
  rw [show (i.mapProfile φ).stack = i.stack from rfl]
  cases i.stack.pop? <;> rfl

theorem popN (n : Nat) : Mirrored φ (Task.popN n) (Task.popN n) := by
  refine ⟨fun i s => ?_⟩
  unfold Task.popN
  rw [show (i.mapProfile φ).stack = i.stack from rfl]
  cases i.stack.popN? n <;> rfl

theorem current (operation : String) :
    Mirrored φ (Task.current operation) (Task.current operation) := by
  refine ⟨fun i s => ?_⟩
  unfold Task.current
  rw [show (i.mapProfile φ).current? = i.current? from rfl]
  cases i.current? <;> rfl

theorem updateCurrent (operation : String) (f : Module → Module) :
    Mirrored φ (Task.updateCurrent operation f) (Task.updateCurrent operation f) :=
  (current operation).bind fun _ => updateStore _

end Task.Mirrored

/-- Whether a query is about the profile. -/
def Query.isProfiling : Query → Bool
  | .startProfile | .stopProfile | .stamp _ | .profile => true
  | _ => false

/-! ## Nested work -/

/-- Nested work that is the same but for profiles. -/
structure Nested.Mirrored (φ : Profile → Profile) (e e' : Nested) : Prop where
  run : ∀ source origin, (e.run source origin).Mirrored φ (e'.run source origin)
  send : ∀ url method body, (e.send url method body).Mirrored φ (e'.send url method body)

namespace Task.Mirrored

variable {e e' : Nested}

/-! ## Modules -/

theorem initializeModule (he : Nested.Mirrored φ e e') (m : Nat) :
    Mirrored φ (initializeModule e m) (initializeModule e' m) := by
  unfold Wordstack.initializeModule
  refine bind (view fun _ _ => rfl) fun skip => ?_
  split
  · exact pure ()
  refine bind (view fun _ _ => rfl) fun module => bind (update fun _ => rfl) fun _ => ?_
  refine (he.run _ _).call.attempt.bind fun outcome => ?_
  cases outcome with
  | ok => exact (updateStore _).bind fun _ => bind (update fun _ => rfl) fun _ => pure ()
  | error f => exact bind (update fun _ => rfl) fun _ => throw _

theorem useModules (he : Nested.Mirrored φ e e') (imports : List (String × String)) :
    Mirrored φ (useModules e imports) (useModules e' imports) := by
  induction imports with
  | nil => exact pure ()
  | cons imp rest ih =>
    obtain ⟨name, qualifier⟩ := imp
    unfold Wordstack.useModules
    refine interp fun i => (lift _).bind fun m => ?_
    exact (initializeModule he m).call.bind fun _ => (updateCurrent _ _).bind fun _ => ih

theorem importModule (he : Nested.Mirrored φ e e') (m : Nat) (qualifier : String) :
    Mirrored φ (importModule e m qualifier) (importModule e' m qualifier) := by
  have hregister : Mirrored φ (Task.register m) (Task.register m) := ⟨fun _ _ => rfl⟩
  unfold Wordstack.importModule
  exact hregister.bind fun _ => bind (view fun _ _ => rfl) fun _ => (useModules he _).call

/-- Pending modules. -/
theorem drainPending (he : Nested.Mirrored φ e e') (bound : Nat) :
    Mirrored φ (drainPending e bound) (drainPending e' bound) := by
  induction bound with
  | zero => exact pure ()
  | succ bound ih =>
    unfold Wordstack.drainPending
    refine interp fun i => ?_
    rw [show (i.mapProfile φ).pending = i.pending from rfl]
    split
    · exact pure ()
    refine bind (update fun _ => rfl) fun _ => (initializeModule he _).call.attempt.bind
      fun outcome => ?_
    cases outcome with
    | ok => exact ih
    | error f => exact bind (update fun _ => rfl) fun _ => throw f

theorem initializePending (he : Nested.Mirrored φ e e') :
    Mirrored φ (initializePending e) (initializePending e') :=
  interp fun _ => drainPending he _

/-! ## Other runtimes -/

theorem callRemote (he : Nested.Mirrored φ e e') (client : Nat) (method : Method)
    (request : Json) :
    Mirrored φ (callRemote e client method request) (callRemote e' client method request) := by
  unfold Wordstack.callRemote
  refine bind (view fun _ _ => rfl) fun c => ?_
  split
  · exact throw _
  · exact (he.send _ _ _).bind fun _ => lift _

theorem executeRemote (he : Nested.Mirrored φ e e') (client : Nat) (word : String)
    (vs : List Val) :
    Mirrored φ (executeRemote e client word vs) (executeRemote e' client word vs) :=
  (lift _).bind fun _ => (callRemote he _ _ _).bind fun _ =>
    bind (view fun _ _ => rfl) fun _ => lift _

theorem discover (he : Nested.Mirrored φ e e') (r : RemoteModule) :
    Mirrored φ (r.discover e) (r.discover e') := by
  unfold RemoteModule.discover describeRemote
  split
  · exact pure r
  refine bind (view fun _ _ => rfl) fun name => ?_
  refine ((callRemote he _ _ _).bind fun _ => pure _).bind fun doc => ?_
  exact (updateStore _).bind fun _ => (log _ _ _).bind fun _ => pure _

theorem useRemoteModules (he : Nested.Mirrored φ e e') (client : Nat)
    (runtime qualifier : String) (names : List String) :
    Mirrored φ (useRemoteModules e client runtime qualifier names)
      (useRemoteModules e' client runtime qualifier names) := by
  induction names with
  | nil => exact pure ()
  | cons name rest ih =>
    unfold Wordstack.useRemoteModules
    refine (ofStore _).bind fun module => (discover he _).bind fun r => ?_
    exact (importModule he _ _).bind fun _ => ih

/-! A request is answered by interpreters of the other runtime, whatever machine they are run by. -/

theorem seeded (r : Runtime) (stack : List Json) : Mirrored φ (r.seeded stack) (r.seeded stack) :=
  (ofStore? _).bind fun _ => (lift _).bind fun _ => pure _

theorem serveWord (e : Nested) (r : Runtime) (request : WordRequest) :
    Mirrored φ (r.executeWord e request) (r.executeWord e request) := by
  refine (log _ _ _).bind fun _ => bind (attempt ?_) fun outcome => ?_
  · exact (seeded r _).bind fun i => (onOther _ _).bind fun p => lift _
  · cases outcome with
    | ok stack => exact pure _
    | error f => exact (log _ _ _).bind fun _ => pure _

theorem serveSequence (e : Nested) (r : Runtime) (request : SequenceRequest) :
    Mirrored φ (r.executeSequence e request) (r.executeSequence e request) := by
  refine (log _ _ _).bind fun _ => (seeded r _).attempt.bind fun outcome => ?_
  cases outcome with
  | error f => exact pure _
  | ok i =>
    refine (onOther _ _).bind fun p => ?_
    obtain ⟨failure, j⟩ := p
    cases failure with
    | some w => exact pure _
    | none =>
      dsimp only
      split
      · exact pure _
      · exact pure _

theorem inTime (p : Endpoint) (method : Method) {x : Task α} (hx : x.Mirrored φ x) :
    Mirrored φ (p.inTime method x) (p.inTime method x) := by
  refine (hx.within _).bind fun o => ?_
  cases o with
  | some a => exact pure _
  | none => exact pure _

theorem invoke (e : Nested) (p : Endpoint) (method : Method) (body : Option Json) :
    Mirrored φ (p.invoke e method body) (p.invoke e method body) := by
  unfold Endpoint.invoke
  cases method with
  | executeWord =>
    exact (lift _).bind fun request => (inTime p _ (serveWord e _ request)).bind fun _ => pure _
  | executeSequence =>
    exact (lift _).bind fun request =>
      (inTime p _ (serveSequence e _ request)).bind fun _ => pure _
  | listModules => exact bind (view fun _ _ => rfl) fun _ => pure _
  | getModuleInfo =>
    exact (lift _).bind fun request => bind (view fun _ _ => rfl) fun _ =>
      (lift _).bind fun _ => pure _

theorem send (e : Nested) (url : String) (method : Method) (body : Json) :
    Mirrored φ (Network.send e url method body) (Network.send e url method body) := by
  unfold Network.send Http.answerCall
  refine (updateStore _).bind fun _ => bind (view fun _ _ => rfl) fun endpoints => ?_
  split
  · exact pure _
  refine bind ?_ fun _ => pure _
  split
  · exact pure _
  refine (invoke e _ _ _).attempt.bind fun outcome => ?_
  cases outcome with
  | ok x => exact pure _
  | error f => exact pure _

/-! ## Native code and words -/

/-- Queries that have nothing to do with the profile. -/
theorem answer (he : Nested.Mirrored φ e e') (q : Query) (hq : q.isProfiling = false) :
    Mirrored φ (answer e q) (answer e' q) := by
  cases q with
  | startProfile | stopProfile | stamp _ | profile => cases hq
  | pop => exact pop
  | peek =>
    refine ⟨fun i s => ?_⟩
    simp only [Wordstack.answer]
    rw [show (i.mapProfile φ).stack = i.stack from rfl]
    cases i.stack.top? <;> rfl
  | popN n => exact popN n
  | run source => exact (he.run _ _).call
  | attempt source =>
    refine (he.run _ _).call.attempt.bind fun outcome => ?_
    cases outcome with
    | ok => exact pure _
    | error f => exact pure _
  | findWord name =>
    refine bind (view fun _ _ => rfl) fun found => (lift _).bind fun w => ?_
    split
    · exact pure _
    · exact (ofStore _).bind fun _ => pure _
  | findModule name =>
    exact interp fun _ => (lift _).bind fun _ => bind (view fun _ _ => rfl) fun _ => pure _
  | variableNamed name => exact (current _).bind fun _ => (ofStore _).bind fun _ => pure _
  | requireScope operation => exact (current _).bind fun _ => pure ()
  | exportNames names => exact updateCurrent _ _
  | useModules imports => exact (useModules he imports).call
  | store _ _ | print _ => exact updateStore _
  | fresh => exact ofStore Store.freshId
  | turn => exact turn
  | never => exact (wait _).bind fun _ => pure ()
  | connect _ _ _ | disconnect _ _ => exact ⟨fun _ _ => rfl⟩
  | useRemote pool runtime qualifier modules =>
    refine bind (view fun _ _ => rfl) fun found => ?_
    cases found with
    | some client => exact useRemoteModules he client runtime qualifier modules
    | none => exact throw _
  | push _ | setStack _ => exact update fun _ => rfl
  | top | stack | callLocation | topInput | fetch _ | connections _ => exact view fun _ _ => rfl

theorem takeOptions : Mirrored φ takeOptions takeOptions := by
  refine ⟨fun i s => ?_⟩
  unfold Wordstack.takeOptions
  rw [show (i.mapProfile φ).stack = i.stack from rfl]
  split <;> rfl

/-- A run of a memo's word is one of its own, or the one in progress. -/
theorem refresh (cell : Nat) {x y : Task Unit} (h : x.Mirrored φ y) :
    Mirrored φ (refresh cell x) (refresh cell y) := by
  unfold Wordstack.refresh
  refine (ofStore _).bind fun entry => ?_
  cases entry with
  | begin =>
    refine (h.call.bind fun _ => pop).attempt.bind fun outcome => ?_
    exact (updateStore _).bind fun _ => turn.bind fun _ => (updateStore _).bind fun _ => lift _
  | join number =>
    -- whether it waits or not, the outcome is looked up in the end
    have hlast : ∀ x : Option (Except Fault Val) → Task Val, (∀ o, x (some o) = Task.lift o) →
        x none = Task.exhausted →
        Mirrored φ ((Task.view fun _ s => (s.memo cell).outcome? number) >>= x)
          ((Task.view fun _ s => (s.memo cell).outcome? number) >>= x) := by
      refine fun x hsome hnone => bind (view fun _ _ => rfl) fun outcome => ?_
      cases outcome with
      | some o => exact hsome o ▸ lift o
      | none => exact hnone ▸ exhausted
    refine turn.bind fun _ => bind (view fun _ _ => rfl) fun found => ?_
    split
    · exact turn.bind fun _ => hlast _ (fun _ => rfl) rfl
    · exact (wait _).bind fun _ => hlast _ (fun _ => rfl) rfl

theorem closeArray : Mirrored φ closeArray closeArray := by
  unfold Wordstack.closeArray
  refine interp fun i => ?_
  rw [show (i.mapProfile φ).marks = i.marks from rfl]
  split
  · exact throw _
  refine bind (update fun _ => rfl) fun _ => ?_
  rw [show (i.mapProfile φ).stack = i.stack from rfl]
  split
  · exact throw _
  · exact update fun _ => rfl

theorem openModule (name : String) : Mirrored φ (openModule name) (openModule name) := by
  unfold Wordstack.openModule
  split
  · exact update fun _ => rfl
  refine (current _).bind fun parent => bind (view fun _ _ => rfl) fun m => ?_
  split
  · exact update fun _ => rfl
  · exact (ofStore _).bind fun child => update fun _ => rfl

theorem closeModule : Mirrored φ closeModule closeModule := by
  unfold Wordstack.closeModule
  refine interp fun i => ?_
  rw [show (i.mapProfile φ).scope = i.scope from rfl]
  split
  · exact throw _
  · exact update fun _ => rfl

/-! ## Tokens -/

theorem startDefinition (k : Token) : Mirrored φ (startDefinition k) (startDefinition k) := by
  unfold Wordstack.startDefinition
  refine interp fun i => ?_
  rw [show (i.mapProfile φ).compiling = i.compiling from rfl]
  split
  · exact throw _
  · exact update fun _ => rfl

theorem endDefinition (k : Token) : Mirrored φ (endDefinition k) (endDefinition k) := by
  unfold Wordstack.endDefinition
  refine interp fun i => ?_
  rw [show (i.mapProfile φ).compiling = i.compiling from rfl,
    show (i.mapProfile φ).definition = i.definition from rfl,
    show (i.mapProfile φ).memoDefinition = i.memoDefinition from rfl]
  split
  · split
    · exact (current _).bind fun m => (updateStore _).bind fun _ => update fun _ => rfl
    · exact (current _).bind fun m => (updateStore _).bind fun _ => update fun _ => rfl
  · exact throw _

theorem checkBrackets (isOutermost : Bool) :
    Mirrored φ (checkBrackets isOutermost) (checkBrackets isOutermost) := by
  unfold Wordstack.checkBrackets
  refine interp fun i => ?_
  rw [show (i.mapProfile φ).marks = i.marks from rfl]
  split
  · exact throw _
  · exact pure ()

end Task.Mirrored

end Wordstack
