import Wordstack.Proofs.Modules.Recorded
import Wordstack.Proofs.Wire.Decoded

/-!
# Code with a record

Whatever words, sources and native code do, they do it in the same way without and with a record, as
long as nested work does.

- **Sites** (`Site`): code works on the interpreter whose calls are recorded, or on one that serves
  a request of it. That one finds modules only that are ready, so it runs no source of a module.
- **Nested work** (`Nested.Recorded`).
- **Modules** (`Site.initializeModule`), **queries** (`Site.answer`) and **words** (`Site.execute`):
  one lemma for each task, in the order of the definitions.
- **Pending modules** (`Site.drainPending`), **tokens** (`Site.handleToken`), **runs**
  (`Site.runSource`) and **single words** (`Site.executeWord`), likewise.
- **Calls** (`Call.recorded`).
-/

namespace Wordstack

/-! ## Sites -/

/-- The interpreter that code works on: the one whose calls are recorded, or one that serves a
request of another one. -/
inductive Site where
  | home
  | away

/-- An interpreter finds modules only that are ready from the start. -/
structure Interp.Bearings.Settled (ready : Nat → Prop) (b : Interp.Bearings) : Prop where
  registry : ∀ e ∈ b.registry.entries, ready e.2
  registered : ∀ e ∈ b.registered, ready e.2
  pending : ∀ m ∈ b.pending, ready m

namespace Site

/-- What is watched at a site while the sources of the modules in `busy` are being run. -/
def watch (ready : Nat → Prop) (busy : List Nat) : Site → Watch
  | home => ⟨busy, fun b => b.initializing = busy, False⟩
  | away => ⟨busy, Interp.Bearings.Settled ready, True⟩

/-- The modules that may be found at a site. -/
def finds (ready : Nat → Prop) : Site → Nat → Prop
  | home, _ => True
  | away, m => ready m

/-- Tasks at a site that are the same without and with a record. -/
abbrev Tasks (site : Site) (ready : Nat → Prop) (busy : List Nat) {α : Type} (x y : Task α) :
    Prop :=
  x.Recorded ready (site.watch ready busy) (fun _ => True) y

variable {site : Site} {ready : Nat → Prop} {busy : List Nat} {i : Interp} {m : Nat}

@[simp] theorem watch_busy : (site.watch ready busy).busy = busy := by cases site <;> rfl

theorem finds_of_ready (hm : ready m) : site.finds ready m := by
  cases site with
  | home => exact ⟨⟩
  | away => exact hm

theorem finds_of_findModule {name : String} (hi : (site.watch ready busy).interp i.bearings)
    (hm : i.findModule name = .ok m) : site.finds ready m := by
  cases site with
  | home => exact ⟨⟩
  | away =>
    unfold Interp.findModule at hm
    split at hm
    · rename_i n hfound
      obtain rfl := Except.ok.inj hm
      obtain hl | ⟨-, hl⟩ := Option.or_eq_some_iff.mp hfound
      · exact hi.registered _ (mem_of_lookup hl)
      · exact hi.registry _ (mem_of_lookup hl)
    · cases hm

theorem interp_register {b : Interp.Bearings} (hi : (site.watch ready busy).interp b)
    (hm : site.finds ready m) (name : String) :
    (site.watch ready busy).interp { b with registered := Json.setField b.registered name m } := by
  cases site with
  | home => exact hi
  | away => exact ⟨hi.registry, Json.forall_setField hi.registered hm, hi.pending⟩

theorem interp_await {b : Interp.Bearings} (hi : (site.watch ready busy).interp b)
    {pending : List Nat} (hp : ∀ m ∈ pending, site.finds ready m) :
    (site.watch ready busy).interp { b with pending } := by
  cases site with
  | home => exact hi
  | away => exact ⟨hi.registry, hi.registered, hp⟩

theorem finds_pending {b : Interp.Bearings} (hi : (site.watch ready busy).interp b) :
    ∀ m ∈ b.pending, site.finds ready m := by
  cases site with
  | home => exact fun _ _ => ⟨⟩
  | away => exact hi.pending

end Site

/-- Nested work that is the same without and with a record. The source of a module is run only where
it is not being run already and the module is not ready. -/
structure Nested.Recorded (ready : Nat → Prop) (e e' : Nested) : Prop where
  run : ∀ {busy : List Nat} {site : Site} (source : String) {origin : Location},
    origin.source = none → site.Tasks ready busy (e.run source origin) (e'.run source origin)
  source : ∀ {busy : List Nat} {m : Nat} {i : Interp} {s : Store} {record : List SentRequest}
    (source : String) (origin : Location), origin.source.isSome → i.initializing = m :: busy →
      i.current? = some m → m ∉ busy → (s.module m).isReady = false →
        Logged ready busy s record →
          (e.run source origin i s).RanSource ready busy m
            (e'.run source origin i (s.resent record))
  send : ∀ {busy : List Nat} {site : Site} (url : String) (method : Method) (body : Json),
    site.Tasks ready busy (e.send url method body) (e'.send url method body)

namespace Site

open Task.Recorded

variable {site : Site} {ready : Nat → Prop} {busy : List Nat} {α : Type} {e e' : Nested}

/-- A value of which nothing is to be said. -/
theorem lift (a : Except Fault α) : site.Tasks ready busy (Task.lift a) (Task.lift a) :=
  Task.Recorded.lift fun _ _ => ⟨⟩

theorem pure (a : α) : site.Tasks ready busy (Pure.pure a) (Pure.pure a) := Task.Recorded.pure ⟨⟩

/-! ## Primitive tasks -/

theorem push (v : Val) : site.Tasks ready busy (Task.push v) (Task.push v) := update fun _ => rfl

theorem setStack (vs : List Val) : site.Tasks ready busy (Task.setStack vs) (Task.setStack vs) :=
  update fun _ => rfl

theorem stack : site.Tasks ready busy Task.stack Task.stack := look fun _ _ _ => rfl

/-- A task that ends at once, and looks at the interpreter only. -/
theorem ends {x : Task α} (h : ∀ i, ∃ r j, (∀ s, x i s = .done r j s) ∧ r ≠ .exhausted ∧
    j.bearings = i.bearings) : site.Tasks ready busy x x := by
  refine apart fun i => ?_
  obtain ⟨r, j, hx, hr, hj⟩ := h i
  exact ⟨r, j, hx, hr, hj, fun _ _ => ⟨⟩⟩

theorem pop : site.Tasks ready busy Task.pop Task.pop := by
  refine ends fun i => ?_
  unfold Task.pop
  rcases i.stack.pop? with _ | ⟨v, stack⟩
  · exact ⟨_, _, fun _ => rfl, Result.fault_ne_exhausted, rfl⟩
  · exact ⟨_, _, fun _ => rfl, Result.ok_ne_exhausted, rfl⟩

theorem popN (n : Nat) : site.Tasks ready busy (Task.popN n) (Task.popN n) := by
  refine ends fun i => ?_
  unfold Task.popN
  rcases i.stack.popN? n with _ | ⟨vs, stack⟩
  · exact ⟨_, _, fun _ => rfl, Result.fault_ne_exhausted, rfl⟩
  · exact ⟨_, _, fun _ => rfl, Result.ok_ne_exhausted, rfl⟩

theorem takeOptions : site.Tasks ready busy takeOptions takeOptions := by
  refine ends fun i => ?_
  unfold Wordstack.takeOptions
  split
  · exact ⟨_, _, fun _ => rfl, Result.ok_ne_exhausted, rfl⟩
  · exact ⟨_, _, fun _ => rfl, Result.ok_ne_exhausted, rfl⟩

theorem current (operation : String) :
    site.Tasks ready busy (Task.current operation) (Task.current operation) := by
  refine ends fun i => ?_
  unfold Task.current
  cases i.current? with
  | some m => exact ⟨_, _, fun _ => rfl, Result.ok_ne_exhausted, rfl⟩
  | none => exact ⟨_, _, fun _ => rfl, Result.fault_ne_exhausted, rfl⟩

theorem updateCurrent (operation : String) {f : Module → Module}
    (hf : ∀ x, (f x).isReady = x.isReady) :
    site.Tasks ready busy (Task.updateCurrent operation f) (Task.updateCurrent operation f) :=
  (current operation).bind fun m _ => updateStore (.updateModule m hf)

theorem register {m : Nat} (hm : site.finds ready m) :
    site.Tasks ready busy (Task.register m) (Task.register m) :=
  ⟨fun {i s _} hi hs => .ok (i := i.register s m) ⟨⟩ (interp_register hi hm _) hs⟩

theorem findModule {i : Interp} (hi : (site.watch ready busy).interp i.bearings) (name : String) :
    (Task.lift (i.findModule name)).Recorded ready (site.watch ready busy) (site.finds ready)
      (Task.lift (i.findModule name)) :=
  Task.Recorded.lift fun _ hm => finds_of_findModule hi hm

/-- A new module is one that is not there yet. -/
theorem addModule {x : Module} (hx : x.isReady = true) :
    (Task.ofStore fun s => s.addModule x).Recorded ready (site.watch ready busy) ready
      (Task.ofStore fun s => s.addModule x) :=
  ofStore (fun _ _ => rfl) (.addModule hx) fun hs => hs.new _ (Nat.le_refl _)

theorem fresh : site.Tasks ready busy (Task.ofStore Store.freshId) (Task.ofStore Store.freshId) :=
  ofStore (fun _ _ => rfl) (.aside (fun _ _ => rfl) (fun _ => rfl) fun _ => rfl) fun _ => ⟨⟩

/-! ## Modules -/

/-- At home the source of a module is run where it is not being run already and the module is not
ready, and its run leaves the module ready if it was one to the end. Elsewhere there is nothing to
do. -/
theorem initializeModule (he : Nested.Recorded ready e e') {m : Nat} (hm : site.finds ready m) :
    site.Tasks ready busy (initializeModule e m) (initializeModule e' m) := by
  refine ⟨fun {i s record} hi hs => ?_⟩
  unfold Wordstack.initializeModule
  rw [Task.bind_apply, Task.bind_apply, Task.view, Task.view, Step.bind, Step.bind]
  rw [show (s.resent record).module m = s.module m from rfl]
  split
  · exact .ok ⟨⟩ hi hs
  rename_i hskip
  obtain ⟨hready, hnot⟩ := Bool.or_eq_false_iff.mp (Bool.eq_false_iff.mpr hskip)
  rw [watch_busy] at hs
  cases site with
  | away =>
    have hnow := (hs.ready m).mpr (.inl hm)
    rw [hready] at hnow
    cases hnow
  | home =>
    have hinitializing : i.initializing = busy := hi
    have hbusy : m ∉ busy := by simpa [hinitializing] using hnot
    have hleave : ∀ {k : Interp}, k.initializing = m :: busy →
        (k.leaveModule m).initializing = busy := by
      intro k hk
      show k.initializing.filter (· != m) = busy
      rw [hk, List.filter_cons_of_neg (by simp)]
      exact List.filter_eq_self.mpr fun n hn => bne_iff_ne.mpr fun heq => hbusy (heq ▸ hn)
    have hentered : (i.enterModule m).initializing = m :: busy := congrArg (m :: ·) hinitializing
    have hrun := he.source (s.module m).source (s.module m).origin rfl hentered rfl hbusy hready hs
    refine hrun.later.attempt_bind (W := home.watch ready busy) id (fun hk hu => ?_) fun hk hu => ?_
    · exact .ok ⟨⟩ (hleave hk) hu
    · exact .fault (hleave hk) hu

theorem useModules (he : Nested.Recorded ready e e') (imports : List (String × String)) :
    site.Tasks ready busy (useModules e imports) (useModules e' imports) := by
  induction imports with
  | nil => exact pure ()
  | cons imp rest ih =>
    obtain ⟨name, qualifier⟩ := imp
    unfold Wordstack.useModules
    refine interp.bind fun i hi => (findModule hi name).bind fun m hm => ?_
    refine (initializeModule he hm).call.bind fun _ _ => ?_
    refine (updateCurrent _ (f := fun x => x.addImport ⟨m, qualifier⟩) fun _ => rfl).bind ?_
    exact fun _ _ => ih

theorem importModule (he : Nested.Recorded ready e e') {m : Nat} (hm : site.finds ready m)
    (qualifier : String) :
    site.Tasks ready busy (importModule e m qualifier) (importModule e' m qualifier) :=
  (register hm).bind fun _ _ => (look fun _ _ _ => rfl).bind fun _ _ => (useModules he _).call

/-! ## Other runtimes -/

theorem callRemote (he : Nested.Recorded ready e e') (client : Nat) (method : Method)
    (request : Json) :
    site.Tasks ready busy (callRemote e client method request)
      (callRemote e' client method request) := by
  unfold Wordstack.callRemote
  refine (look fun _ _ _ => rfl).bind fun c _ => ?_
  split
  · exact throw _
  · exact (he.send _ _ _).bind fun _ _ => lift _

theorem executeRemote (he : Nested.Recorded ready e e') (client : Nat) (word : String)
    (vs : List Val) :
    site.Tasks ready busy (executeRemote e client word vs) (executeRemote e' client word vs) := by
  unfold Wordstack.executeRemote remoteStack
  refine (lift _).bind fun _ _ => (callRemote he _ _ _).bind fun _ _ => ?_
  exact (look fun _ _ _ => rfl).bind fun _ _ => lift _

/-- Words that are discovered are those of the same module. -/
theorem discover (he : Nested.Recorded ready e e') {r : RemoteModule} (hr : ready r.module) :
    (r.discover e).Recorded ready (site.watch ready busy) (fun r => ready r.module)
      (r.discover e') := by
  unfold RemoteModule.discover describeRemote
  split
  · exact Task.Recorded.pure hr
  refine (look fun _ _ _ => rfl).bind fun _ _ =>
    ((callRemote he _ _ _).bind fun _ _ => pure _).bind fun doc _ => ?_
  exact (updateStore (.addRemoteWords _ _ _ doc)).bind fun _ _ => (log _ _ _).bind fun _ _ =>
    Task.Recorded.pure hr

theorem useRemoteModules (he : Nested.Recorded ready e e') (client : Nat)
    (runtime qualifier : String) (names : List String) :
    site.Tasks ready busy (useRemoteModules e client runtime qualifier names)
      (useRemoteModules e' client runtime qualifier names) := by
  induction names with
  | nil => exact pure ()
  | cons name rest ih =>
    unfold Wordstack.useRemoteModules
    refine (addModule rfl).bind fun m hm => ?_
    refine (discover he (r := { module := m, client, runtime }) hm).bind fun r hr => ?_
    exact (importModule he (finds_of_ready hr) _).bind fun _ _ => ih

/-! ## Native code -/

theorem answer (he : Nested.Recorded ready e e') (q : Query) :
    site.Tasks ready busy (answer e q) (answer e' q) := by
  cases q with
  | pop => exact pop
  | peek =>
    refine ends fun i => ?_
    simp only [Wordstack.answer]
    cases i.stack.top? with
    | some v => exact ⟨_, _, fun _ => rfl, Result.ok_ne_exhausted, rfl⟩
    | none => exact ⟨_, _, fun _ => rfl, Result.fault_ne_exhausted, rfl⟩
  | popN n => exact popN n
  | top => exact look fun _ _ _ => rfl
  | push v => exact push v
  | stack => exact stack
  | setStack vs => exact setStack vs
  | run source => exact (he.run source rfl).call
  | attempt source =>
    refine (he.run source rfl).call.attempt.bind fun outcome _ => ?_
    cases outcome with
    | ok => exact pure _
    | error f => exact pure _
  | findWord name =>
    refine (look fun _ _ _ => rfl).bind fun found _ => (lift found).bind fun w _ => ?_
    split
    · exact pure _
    · exact fresh.bind fun _ _ => pure _
  | findModule name =>
    exact interp.bind fun i hi => (findModule hi name).bind fun m _ =>
      (look fun _ _ _ => rfl).bind fun _ _ => pure _
  | callLocation => exact look fun _ _ _ => rfl
  | topInput => exact look fun _ _ _ => rfl
  | variableNamed name =>
    refine (current _).bind fun m _ => (ofStore (P := fun _ => True) (fun s l => ?_)
      (.variableCell m name .null) fun _ => ⟨⟩).bind fun _ _ => pure _
    unfold Store.variableCell
    rw [show (s.resent l).module m = s.module m from rfl]
    split <;> rfl
  | fetch cell => exact look fun _ _ _ => rfl
  | store cell v => exact updateStore (.aside (fun _ _ => rfl) (fun _ => rfl) fun _ => rfl)
  | requireScope operation => exact (current operation).bind fun _ _ => pure _
  | exportNames names => exact updateCurrent _ fun _ => rfl
  | useModules imports => exact (useModules he imports).call
  | startProfile => exact update fun _ => rfl
  | stopProfile => exact update fun _ => rfl
  | stamp label =>
    exact (ofStore (P := fun _ => True) (fun _ _ => rfl)
      (.aside (fun _ _ => rfl) (fun _ => rfl) fun _ => rfl) fun _ => ⟨⟩).bind fun _ _ =>
        update fun _ => rfl
  | profile => exact look fun _ _ _ => rfl
  | print line => exact updateStore (.aside (fun _ _ => rfl) (fun _ => rfl) fun _ => rfl)
  | fresh => exact fresh
  | turn => exact turn
  | never => exact (wait .never).bind fun _ _ => pure _
  | connect pool name address => exact change fun i => .connect _ name address clientTimeout
  | disconnect pool name => exact change fun i => .disconnect _ name
  | connections pool => exact look fun _ _ _ => rfl
  | useRemote pool runtime qualifier modules =>
    refine (look fun _ _ _ => rfl).bind fun client _ => ?_
    split
    · exact useRemoteModules he _ _ _ _
    · exact throw _

theorem perform (he : Nested.Recorded ready e e') (x : Native α) :
    site.Tasks ready busy (perform e x) (perform e' x) := by
  induction x with
  | done a => exact pure a
  | fail f => exact throw f
  | ask q next ih => exact (answer he q).bind fun r _ => ih r

/-! ## Failures -/

theorem tryHandlers (he : Nested.Recorded ready e e') (name : String) (f : Fault)
    (handlers : List Handler) :
    site.Tasks ready busy (tryHandlers e name f handlers) (tryHandlers e' name f handlers) := by
  induction handlers with
  | nil => exact pure false
  | cons h rest ih =>
    unfold Wordstack.tryHandlers
    refine ((perform he (h f)).callCode false).attempt.bind fun outcome _ => ?_
    cases outcome with
    | ok => exact pure true
    | error f' => exact (log _ _ _).bind fun _ _ => ih

theorem recover (he : Nested.Recorded ready e e') (label : WordLabel) (handlers : List Handler)
    (f : Fault) :
    site.Tasks ready busy (recover e label handlers f) (recover e' label handlers f) := by
  unfold Wordstack.recover
  split
  · exact throw f
  refine (tryHandlers he _ f handlers).call.bind fun handled _ => ?_
  split
  · exact pure ()
  split
  · exact throw f
  · exact (look fun _ _ _ => rfl).bind fun _ _ => throw _

theorem guarded (he : Nested.Recorded ready e e') (label : WordLabel) (handlers : List Handler)
    {x y : Task Unit} (hxy : site.Tasks ready busy x y) :
    site.Tasks ready busy (guarded e label handlers x) (guarded e' label handlers y) := by
  unfold Wordstack.guarded
  refine hxy.attempt.bind fun outcome _ => ?_
  cases outcome with
  | ok => exact pure ()
  | error f => exact (recover he label handlers f).call

/-! ## Words -/

theorem callNative (he : Nested.Recorded ready e e') (inputs : Nat) (hasOptions waits : Bool)
    (code : List Val → Options → Native (Option Val)) :
    site.Tasks ready busy (callNative e inputs hasOptions waits code)
      (callNative e' inputs hasOptions waits code) := by
  have hrest : ∀ options : Options, site.Tasks ready busy
      (do
        let args ← Task.popN inputs
        let result ← Task.callCode waits (Wordstack.perform e (code args options))
        Task.pushSome result)
      (do
        let args ← Task.popN inputs
        let result ← Task.callCode waits (Wordstack.perform e' (code args options))
        Task.pushSome result) := by
    intro options
    refine (popN inputs).bind fun args _ => ((perform he _).callCode waits).bind fun result _ => ?_
    cases result with
    | some v => exact push v
    | none => exact pure ()
  unfold Wordstack.callNative
  split
  · exact takeOptions.bind fun options _ => hrest options
  · exact hrest .empty

theorem setMemo (cell : Nat) (f : Memo → Memo) :
    site.Tasks ready busy (Task.updateStore fun s => s.setMemo cell (f (s.memo cell)))
      (Task.updateStore fun s => s.setMemo cell (f (s.memo cell))) :=
  updateStore (.setMemo cell f)

theorem outcome? (cell number : Nat) :
    site.Tasks ready busy (Task.view fun _ s => (s.memo cell).outcome? number)
      (Task.view fun _ s => (s.memo cell).outcome? number) := look fun _ _ _ => rfl

/-- A run of a memo's word is one of its own, or the one in progress. -/
theorem refresh (cell : Nat) {x y : Task Unit} (hxy : site.Tasks ready busy x y) :
    site.Tasks ready busy (refresh cell x) (refresh cell y) := by
  unfold Wordstack.refresh
  refine (ofStore (P := fun _ => True) (fun _ _ => rfl) (.setMemo cell fun m => m.enter.2)
    fun _ => ⟨⟩).bind fun entry _ => ?_
  cases entry with
  | begin =>
    refine (hxy.call.bind fun _ _ => pop).attempt.bind fun outcome _ => ?_
    refine (setMemo cell (·.finish outcome)).bind fun _ _ => turn.bind fun _ _ => ?_
    exact (setMemo cell (·.close outcome)).bind fun _ _ => lift outcome
  | join number =>
    have hlast : ∀ x : Option (Except Fault Val) → Task Val, (∀ o, x (some o) = Task.lift o) →
        x none = Task.exhausted → site.Tasks ready busy
          ((Task.view fun _ s => (s.memo cell).outcome? number) >>= x)
          ((Task.view fun _ s => (s.memo cell).outcome? number) >>= x) := by
      intro x hsome hnone
      refine (outcome? cell number).bind fun outcome _ => ?_
      cases outcome with
      | some o => exact hsome o ▸ lift o
      | none => exact hnone ▸ exhausted
    refine turn.bind fun _ _ => (outcome? cell number).bind fun found _ => ?_
    split
    · exact turn.bind fun _ _ => hlast _ (fun _ => rfl) rfl
    · exact (wait _).bind fun _ _ => hlast _ (fun _ => rfl) rfl

theorem closeArray : site.Tasks ready busy closeArray closeArray := by
  unfold Wordstack.closeArray
  refine interp.bind fun i _ => ?_
  split
  · exact throw _
  refine Task.Recorded.bind (update fun _ => rfl) fun _ _ => ?_
  split
  · exact throw _
  · exact update fun _ => rfl

/-- A block of a module that is not there yet. -/
theorem addBlock (parent : Nat) (name : String) :
    (Task.ofStore fun s =>
        let (child, s) := s.addModule { name }
        (child, s.updateModule parent fun m => m.addChild name child)).Recorded
      ready (site.watch ready busy) ready
      (Task.ofStore fun s =>
        let (child, s) := s.addModule { name }
        (child, s.updateModule parent fun m => m.addChild name child)) := by
  refine ofStore (fun _ _ => rfl) ?_ fun hs => hs.new _ (Nat.le_refl _)
  exact .reading (fun s => s.modules.size) (fun _ _ => rfl) fun child =>
    (Store.Unrecorded.updateModule parent (f := fun m => m.addChild name child)
      fun _ => rfl).comp (.addModule rfl)

theorem openModule (name : String) :
    site.Tasks ready busy (openModule name) (openModule name) := by
  unfold Wordstack.openModule
  split
  · exact update fun _ => rfl
  refine (current _).bind fun parent _ => Task.Recorded.bind (look fun _ _ _ => rfl) fun m _ => ?_
  split
  · exact update fun _ => rfl
  refine (addBlock parent name).bind fun child hchild => ⟨fun {i s record} hi hs => ?_⟩
  refine .ok ⟨⟩ ?_ hs
  by_cases hp : parent = i.app
  · simpa [Interp.bearings, hp] using interp_register hi (finds_of_ready hchild) name
  · simpa [Interp.bearings, hp] using hi

theorem closeModule : site.Tasks ready busy closeModule closeModule := by
  unfold Wordstack.closeModule
  refine interp.bind fun i _ => ?_
  split
  · exact throw _
  · exact update fun _ => rfl

theorem noteDispatch (w : Word) (l : Option Location) :
    site.Tasks ready busy (noteDispatch w l) (noteDispatch w l) := update fun _ => rfl

mutual
theorem execute (he : Nested.Recorded ready e e') :
    ∀ w : Word, site.Tasks ready busy (execute e w) (execute e' w)
  | .constant _ v => by
    unfold Wordstack.execute
    exact push v
  | .definition label body => by
    unfold Wordstack.execute
    exact (look fun _ _ _ => rfl).bind fun call _ => executeBody he label.name call body
  | .native label inputs hasOptions waits code handlers => by
    unfold Wordstack.execute
    exact guarded he label handlers (callNative he inputs hasOptions waits code)
  | .direct label waits code handlers => by
    unfold Wordstack.execute
    exact guarded he label handlers ((perform he code).callCode waits)
  | .memo _ cell word => by
    unfold Wordstack.execute
    refine (look fun _ _ _ => rfl).bind fun value _ => ?_
    cases value with
    | some v => exact push v
    | none => exact (refresh cell (execute he word)).call.bind fun v _ => push v
  | .memoRefresh _ cell word => by
    unfold Wordstack.execute
    exact (refresh cell (execute he word)).call.bind fun _ _ => pure ()
  | .memoReload _ cell word => by
    unfold Wordstack.execute
    exact (refresh cell (execute he word)).call.bind fun v _ => push v
  | .openArray => by unfold Wordstack.execute; exact update fun _ => rfl
  | .closeArray => by unfold Wordstack.execute; exact closeArray
  | .openModule name => by unfold Wordstack.execute; exact openModule name
  | .closeModule => by unfold Wordstack.execute; exact closeModule
  | .remote label client _ _ => by
    unfold Wordstack.execute
    refine guarded he label [] (stack.bind fun vs _ => ?_)
    exact (executeRemote he client label.name vs).bind fun vs _ => setStack vs

theorem executeBody (he : Nested.Recorded ready e e') (name : String) (call : Option Location) :
    ∀ body : List (Word × Location),
      site.Tasks ready busy (executeBody e name call body) (executeBody e' name call body)
  | [] => by unfold Wordstack.executeBody; exact pure ()
  | (w, _) :: rest => by
    unfold Wordstack.executeBody
    refine ((noteDispatch w _).bind fun _ _ => (execute he w).call).call.attempt.bind
      fun outcome _ => ?_
    cases outcome with
    | ok => exact executeBody he name call rest
    | error f =>
      dsimp only
      split
      · exact throw _
      · exact throw _
end

theorem dispatch (he : Nested.Recorded ready e e') (w : Word) (l : Option Location) :
    site.Tasks ready busy (dispatch e w l) (dispatch e' w l) :=
  (noteDispatch w l).bind fun _ _ => (execute he w).call

end Site

namespace Site

open Task.Recorded

variable {site : Site} {ready : Nat → Prop} {busy : List Nat} {e e' : Nested}

/-! ## Pending modules -/

/-- A module is taken off the pending ones, and put back if its source fails. -/
theorem drainPending (he : Nested.Recorded ready e e') (bound : Nat) :
    site.Tasks ready busy (drainPending e bound) (drainPending e' bound) := by
  induction bound with
  | zero => exact pure ()
  | succ bound ih =>
    unfold Wordstack.drainPending
    refine interp.bind fun i hi => ?_
    split
    · exact pure ()
    rename_i m rest hp
    have hpending := finds_pending hi
    rw [show i.bearings.pending = m :: rest from hp] at hpending
    obtain ⟨hm, hrest⟩ := List.forall_mem_cons.mp hpending
    have htake : site.Tasks ready busy (Task.update fun i => { i with pending := rest })
        (Task.update fun i => { i with pending := rest }) :=
      ⟨fun hj hs => .ok ⟨⟩ (interp_await hj hrest) hs⟩
    have hput : site.Tasks ready busy (Task.update fun i => { i with pending := m :: i.pending })
        (Task.update fun i => { i with pending := m :: i.pending }) :=
      ⟨fun hj hs => .ok ⟨⟩
        (interp_await hj (List.forall_mem_cons.mpr ⟨hm, finds_pending hj⟩)) hs⟩
    refine htake.bind fun _ _ => (initializeModule he hm).call.attempt.bind fun outcome _ => ?_
    cases outcome with
    | ok => exact ih
    | error f => exact hput.bind fun _ _ => throw f

theorem initializePending (he : Nested.Recorded ready e e') :
    site.Tasks ready busy (initializePending e) (initializePending e') :=
  interp.bind fun _ _ => drainPending he _

/-! ## Tokens -/

theorem handleWord (he : Nested.Recorded ready e e') (w : Word) (l : Location) :
    site.Tasks ready busy (handleWord e w l) (handleWord e' w l) := by
  unfold Wordstack.handleWord
  refine interp.bind fun i _ => ?_
  split
  · exact update fun _ => rfl
  · exact (dispatch he w _).call

theorem handleImmediate (he : Nested.Recorded ready e e') (w : Word) (l : Location) :
    site.Tasks ready busy (handleImmediate e w l) (handleImmediate e' w l) := by
  unfold Wordstack.handleImmediate
  refine (update fun i => ?_).bind fun _ _ => (dispatch he w _).call
  split <;> rfl

theorem startDefinition (k : Token) :
    site.Tasks ready busy (startDefinition k) (startDefinition k) := by
  unfold Wordstack.startDefinition
  refine interp.bind fun i _ => ?_
  split
  · exact throw _
  · exact update fun _ => rfl

theorem endDefinition (k : Token) :
    site.Tasks ready busy (endDefinition k) (endDefinition k) := by
  unfold Wordstack.endDefinition
  refine interp.bind fun i _ => ?_
  split
  · split
    · refine (current _).bind fun m _ => ?_
      exact (updateStore (.addMemoWords m _)).bind fun _ _ => update fun _ => rfl
    · refine (current _).bind fun m _ => ?_
      exact (updateStore (.addWord m _)).bind fun _ _ => update fun _ => rfl
  · exact throw _

theorem handleToken (he : Nested.Recorded ready e e') (k : Token) :
    site.Tasks ready busy (handleToken e k) (handleToken e' k) := by
  unfold Wordstack.handleToken
  split
  · exact (handleWord he _ _).handOn
  · exact (handleWord he _ _).handOn
  · exact pure ()
  · exact (handleWord he _ _).handOn
  · exact (handleWord he _ _).handOn
  · exact (handleImmediate he _ _).handOn
  · exact (handleImmediate he _ _).handOn
  · exact startDefinition k
  · exact startDefinition k
  · exact endDefinition k
  · refine (look fun _ _ _ => rfl).bind fun found _ => (lift found).bind fun w _ => ?_
    exact (handleWord he w _).handOn
  · refine interp.bind fun i _ => ?_
    split
    · exact throw _
    · exact pure ()

theorem runTokens (he : Nested.Recorded ready e e') (bound : Nat) (sc : Scanner) :
    site.Tasks ready busy (runTokens e bound sc) (runTokens e' bound sc) := by
  induction bound generalizing sc with
  | zero => exact exhausted
  | succ bound ih =>
    unfold Wordstack.runTokens
    split
    · exact pure _
    · refine (handleToken he _).call.attempt.bind fun outcome _ => ?_
      cases outcome with
      | error f => exact pure _
      | ok =>
        refine Task.Recorded.bind (update fun _ => rfl) fun _ _ => ?_
        split
        · exact pure none
        · exact ih _

theorem runRecovering (he : Nested.Recorded ready e e') (h : Handler) (left used : Nat)
    (sc : Scanner) :
    site.Tasks ready busy (runRecovering e h left used sc) (runRecovering e' h left used sc) := by
  induction left generalizing used sc with
  | zero => exact interp.bind fun i _ => throw _
  | succ left ih =>
    unfold Wordstack.runRecovering
    refine (runTokens he _ sc).call.bind fun stopped _ => ?_
    cases stopped with
    | none => exact pure ()
    | some p =>
      obtain ⟨f, sc⟩ := p
      exact ((perform he (h f)).callCode false).bind fun _ _ => ih _ sc

/-! ## Runs -/

theorem runScanner (he : Nested.Recorded ready e e') (sc : Scanner) :
    site.Tasks ready busy (runScanner e sc) (runScanner e' sc) := by
  unfold Wordstack.runScanner
  refine interp.bind fun i _ => ?_
  split
  · exact (runRecovering he _ _ _ _).call
  · refine (runTokens he _ sc).call.bind fun stopped _ => ?_
    cases stopped with
    | none => exact pure ()
    | some p => exact throw p.1

theorem checkBrackets (isOutermost : Bool) :
    site.Tasks ready busy (checkBrackets isOutermost) (checkBrackets isOutermost) := by
  unfold Wordstack.checkBrackets
  refine interp.bind fun i _ => ?_
  split
  · exact throw _
  · exact pure ()

theorem ownRun (he : Nested.Recorded ready e e') (isOutermost : Bool) (sc : Scanner) :
    site.Tasks ready busy (Task.ownRun e isOutermost sc) (Task.ownRun e' isOutermost sc) := by
  unfold Task.ownRun
  refine (look fun _ _ _ => rfl).bind fun saved _ => ?_
  refine Task.Recorded.bind (update fun _ => rfl) fun _ _ => ?_
  refine ((runScanner he sc).bind fun _ _ => checkBrackets isOutermost).attempt.bind
    fun outcome _ => ?_
  cases outcome with
  | ok => exact update fun _ => rfl
  | error f => exact Task.Recorded.bind (update fun _ => rfl) fun _ _ => throw f

theorem runSource (he : Nested.Recorded ready e e') (source : String) (origin : Location) :
    site.Tasks ready busy (runSource e source origin) (runSource e' source origin) := by
  refine ⟨fun {i s record} hi hs => ?_⟩
  by_cases hin : i.inputs = []
  · rw [runSource_outermost hin, runSource_outermost hin]
    exact ((initializePending he).call.bind fun _ _ => ownRun he true _).steps hi hs
  · rw [runSource_inner hin, runSource_inner hin]
    exact (ownRun he false _).steps hi hs

theorem executeWord (he : Nested.Recorded ready e e') (name : String) :
    site.Tasks ready busy (executeWord e name) (executeWord e' name) := by
  refine (initializePending he).call.bind fun _ _ => ?_
  exact (look fun _ _ _ => rfl).bind fun found _ => (lift found).bind fun w _ =>
    (dispatch he w none).call

end Site

/-- Calls are the same without and with a record. -/
theorem Call.recorded {ready : Nat → Prop} {busy : List Nat} {e e' : Nested} (c : Call)
    (he : Nested.Recorded ready e e') : Site.home.Tasks ready busy (c.task e) (c.task e') := by
  cases c with
  | run source origin => exact Site.runSource he source origin
  | word name => exact Site.executeWord he name
  | use imports => exact Site.useModules he imports
  | load m => exact Site.initializeModule he ⟨⟩

end Wordstack
