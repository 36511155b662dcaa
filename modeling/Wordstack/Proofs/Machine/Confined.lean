import Wordstack.Proofs.Machine.Runs
import Wordstack.Proofs.Machine.Territory

/-!
# Code that stays in its territory

Whatever words, sources and native code do, they do it inside of the territory that they start in,
as long as nested work does.

- **Interpreters** (`Territory.Within`): what code does to an interpreter leaves it in the territory.
- **Nested work** (`Territory.Confines`).
- **Queries** (`Territory.keeps_answer`), **words** (`Territory.keeps_execute`) and **runs**
  (`Territory.keeps_runSource`): one lemma for each task, in the order of the definitions.
-/

namespace Wordstack

namespace Territory

variable {T : Territory} {home m : Nat} {busy : List Nat} {i : Interp} {s : Store}

/-! ## Interpreters -/

namespace Within

/-- A change of what the interpreter holds. -/
theorem holding (h : T.Within home busy i) {j : Interp}
    (havoids : i.Avoids T.hidden → j.Avoids T.hidden) (happ : j.app = i.app := by rfl)
    (hscope : j.scope = i.scope := by rfl) (hregistered : j.registered = i.registered := by rfl)
    (hregistry : j.registry = i.registry := by rfl) (hpending : j.pending = i.pending := by rfl)
    (hinitializing : j.initializing = i.initializing := by rfl) : T.Within home busy j :=
  ⟨happ.trans h.app, h.home, hscope ▸ h.scope, hregistered ▸ h.registered, hregistry ▸ h.registry,
    hpending ▸ h.pending, hinitializing.trans h.initializing, havoids h.avoids⟩

theorem withStack (h : T.Within home busy i) {stack : OperandStack}
    (hv : ∀ v ∈ stack.values, v.Avoids T.hidden) : T.Within home busy { i with stack } :=
  h.holding fun hi => hi.withStack hv

theorem register (h : T.Within home busy i) (hm : T.Known m) (name : String) :
    T.Within home busy { i with registered := Json.setField i.registered name m } :=
  ⟨h.app, h.home, h.scope, Json.forall_setField h.registered hm, h.registry, h.pending,
    h.initializing, h.avoids⟩

theorem enter (h : T.Within home busy i) (hm : T.own m) :
    T.Within home busy { i with scope := m :: i.scope } :=
  ⟨h.app, h.home, List.forall_mem_cons.mpr ⟨hm, h.scope⟩, h.registered, h.registry, h.pending,
    h.initializing, h.avoids⟩

theorem leave (h : T.Within home busy i) :
    T.Within home busy { i with scope := i.scope.tail } :=
  ⟨h.app, h.home, fun m hm => h.scope m (List.mem_of_mem_tail hm), h.registered, h.registry,
    h.pending, h.initializing, h.avoids⟩

theorem enterModule (h : T.Within home busy i) (hm : T.own m) :
    T.Within home (m :: busy) (i.enterModule m) :=
  have hj := h.enter hm
  ⟨hj.app, hj.home, hj.scope, hj.registered, hj.registry, hj.pending,
    congrArg (m :: ·) h.initializing, hj.avoids⟩

theorem leaveModule (h : T.Within home (m :: busy) i) (hm : m ∉ busy) :
    T.Within home busy (i.leaveModule m) := by
  have hj := h.leave
  refine ⟨hj.app, hj.home, hj.scope, hj.registered, hj.registry, hj.pending, ?_, hj.avoids⟩
  show i.initializing.filter (· != m) = busy
  rw [h.initializing, List.filter_cons_of_neg (by simp)]
  exact List.filter_eq_self.mpr fun k hk => bne_iff_ne.mpr fun e => hm (e ▸ hk)

theorem await (h : T.Within home busy i) {pending : List Nat} (hp : ∀ m ∈ pending, T.Known m) :
    T.Within home busy { i with pending } :=
  ⟨h.app, h.home, h.scope, h.registered, h.registry, hp, h.initializing, h.avoids⟩

/-- A failed run goes back to a definition that was open before it. -/
theorem restore (h : T.Within home busy i) {saved : Transient}
    (hd : ∀ d ∈ saved.definition, Word.BodyAvoids T.hidden d.body) (inputs : List String) :
    T.Within home busy { i.restore saved with inputs } :=
  ⟨h.app, h.home, fun m hm => h.scope m (List.mem_of_mem_drop hm), h.registered, h.registry,
    h.pending, h.initializing, h.avoids.stack, hd, h.avoids.recovery, h.avoids.readers⟩

theorem current (h : T.Within home busy i) (hm : i.current? = some m) : T.own m :=
  h.scope m (List.mem_of_head? hm)

theorem known (h : T.Within home busy i) {name : String} (hm : i.findModule name = .ok m) :
    T.Known m := by
  unfold Interp.findModule at hm
  split at hm
  · rename_i m' hfound
    obtain rfl := Except.ok.inj hm
    obtain hl | ⟨-, hl⟩ := Option.or_eq_some_iff.mp hfound
    · exact h.registered _ (mem_of_lookup hl)
    · exact h.registry _ (mem_of_lookup hl)
  · cases hm

end Within

/-! ## Primitive tasks -/

theorem keeps_interp : Task.interp.Keeps (T.guard home busy) (T.Within home busy) :=
  .view fun hi _ => hi

theorem keeps_push {v : Val} (hv : v.Avoids T.hidden) :
    (Task.push v).Keeps (T.guard home busy) fun _ => True :=
  .update fun hi => hi.withStack (List.forall_mem_cons.mpr ⟨hv, hi.avoids.stack⟩)

theorem keeps_setStack {vs : List Val} (hvs : ∀ v ∈ vs, v.Avoids T.hidden) :
    (Task.setStack vs).Keeps (T.guard home busy) fun _ => True :=
  .update fun hi => hi.withStack fun v hv => hvs v (List.mem_reverse.mp hv)

theorem keeps_stack :
    Task.stack.Keeps (T.guard home busy) fun vs => ∀ v ∈ vs, v.Avoids T.hidden :=
  .view fun hi _ v hv => hi.avoids.stack v (List.mem_reverse.mp hv)

theorem keeps_pop : Task.pop.Keeps (T.guard home busy) (Val.Avoids T.hidden) := by
  refine ⟨fun {i s} hi hs => ?_⟩
  unfold Task.pop
  split
  · rename_i v stack hpop
    have hvs := hi.avoids.stack
    unfold OperandStack.pop? at hpop
    split at hpop
    · cases hpop
    · rename_i heq
      cases hpop
      rw [heq] at hvs
      obtain ⟨hv, hvs⟩ := List.forall_mem_cons.mp hvs
      exact .ok hv (hi.withStack hvs) hs
  · exact .fault hi hs

theorem keeps_popN (n : Nat) :
    (Task.popN n).Keeps (T.guard home busy) fun vs => ∀ v ∈ vs, v.Avoids T.hidden := by
  refine ⟨fun {i s} hi hs => ?_⟩
  unfold Task.popN
  split
  · rename_i vs stack hpop
    have hvs := hi.avoids.stack
    unfold OperandStack.popN? at hpop
    split at hpop
    · cases hpop
    · cases hpop
      refine .ok (fun v hv => ?_) (hi.withStack fun v hv => ?_) hs
      · exact hvs v (List.mem_of_mem_take (List.mem_reverse.mp hv))
      · exact hvs v (List.mem_of_mem_drop hv)
  · exact .fault hi hs

theorem keeps_takeOptions :
    takeOptions.Keeps (T.guard home busy) fun o => ∀ e ∈ o.entries, e.2.Avoids T.hidden := by
  refine ⟨fun {i s} hi hs => ?_⟩
  unfold takeOptions
  split
  · rename_i entries rest heq
    have hvs := hi.avoids.stack
    rw [heq] at hvs
    obtain ⟨hv, hvs⟩ := List.forall_mem_cons.mp hvs
    exact .ok (Val.avoids_options.mp hv) (hi.withStack hvs) hs
  · exact .ok (List.forall_mem_nil _) hi hs

theorem keeps_current (operation : String) :
    (Task.current operation).Keeps (T.guard home busy) T.own := by
  refine ⟨fun {i s} hi hs => ?_⟩
  unfold Task.current
  split
  · rename_i m hm
    exact .ok (hi.current hm) hi hs
  · exact .fault hi hs

theorem keeps_register (hm : T.Known m) :
    (Task.register m).Keeps (T.guard home busy) fun _ => True :=
  ⟨fun hi hs => .ok ⟨⟩ (hi.register hm _) hs⟩

theorem keeps_updateCurrent (operation : String) {f : Module → Module}
    (hf : ∀ {s} x, T.Grows s x (f x)) :
    (Task.updateCurrent operation f).Keeps (T.guard home busy) fun _ => True :=
  (keeps_current operation).bind fun _ hm => .updateStore fun hs => hs.updateModule hm hf

theorem keeps_log {H : Interp → Prop} (level : LogLevel) (scope message : String) :
    (Task.log level scope message).Keeps (T.around H) fun _ => True :=
  .updateStore fun hs => hs.log level scope message

theorem keeps_findModule (hi : T.Within home busy i) (name : String) :
    (Task.lift (i.findModule name)).Keeps (T.guard home busy) T.Known :=
  .lift fun _ => hi.known

/-- What a text stands for is no hidden variable. -/
theorem keeps_resolve (text : String) (l : Option Location) :
    (Task.view fun i s => i.resolve s text l).Keeps (T.guard home busy)
      (Yields (Word.Avoids T.hidden)) :=
  .view fun hi hs _ hw => hi.avoids.resolve hs.avoids hi.scope hw

/-! ## Nested work -/

/-- Nested work that stays in the territory. -/
structure Confines (T : Territory) (e : Nested) : Prop where
  run : ∀ {home busy} source origin,
    (e.run source origin).Keeps (T.guard home busy) fun _ => True
  send : ∀ {home busy} url method body,
    (e.send url method body).Keeps (T.guard home busy) fun _ => True

variable {e : Nested}

/-! ## Modules -/

/-- A module that is not ready is one of the territory, so its source may be run in its scope. -/
theorem keeps_initializeModule (he : T.Confines e) (hm : T.Known m) :
    (initializeModule e m).Keeps (T.guard home busy) fun _ => True := by
  refine ⟨fun {i s} hi hs => ?_⟩
  unfold initializeModule
  rw [Task.bind_apply, Task.view, Step.bind]
  split
  · exact .ok ⟨⟩ hi hs
  rename_i hskip
  obtain ⟨hready, hbusy⟩ := Bool.or_eq_false_iff.mp (Bool.eq_false_iff.mpr hskip)
  have hown := hs.own_of_not_ready hm hready
  refine Step.Keeps.attempt_bind ((he.run _ _).call.steps (hi.enterModule hown) hs)
    fun {r j t} hj ht => ?_
  have hleave : T.Within home busy (j.leaveModule m) :=
    hj.leaveModule (by simpa [hi.initializing] using hbusy)
  cases r with
  | ok => exact .ok ⟨⟩ hleave (ht.updateModule hown fun _ => .same fun _ => rfl)
  | error f => exact .fault hleave ht

theorem keeps_useModules (he : T.Confines e) (imports : List (String × String)) :
    (useModules e imports).Keeps (T.guard home busy) fun _ => True := by
  induction imports with
  | nil => exact .pure ⟨⟩
  | cons imp rest ih =>
    obtain ⟨name, qualifier⟩ := imp
    unfold useModules
    refine keeps_interp.bind fun i hi => (keeps_findModule hi name).bind fun m hm => ?_
    refine (keeps_initializeModule he hm).call.bind fun _ _ => ?_
    exact .bind (keeps_updateCurrent _ fun _ => .same) fun _ _ => ih

theorem keeps_importModule (he : T.Confines e) (hm : T.Known m) (qualifier : String) :
    (importModule e m qualifier).Keeps (T.guard home busy) fun _ => True := by
  unfold importModule
  refine (keeps_register hm).bind fun _ _ => (Task.Keeps.look _).bind fun name _ => ?_
  exact (keeps_useModules he _).call

/-! ## Other runtimes -/

theorem keeps_callRemote (he : T.Confines e) (client : Nat) (method : Method) (request : Json) :
    (callRemote e client method request).Keeps (T.guard home busy) fun _ => True := by
  unfold callRemote
  refine (Task.Keeps.look _).bind fun c _ => ?_
  split
  · exact .throw
  · exact (he.send _ _ _).bind fun _ _ => .lift fun _ _ => ⟨⟩

/-- The values that come back refer to no variable at all. -/
theorem keeps_executeRemote (he : T.Confines e) (client : Nat) (word : String) (vs : List Val) :
    (executeRemote e client word vs).Keeps (T.guard home busy)
      fun vs => ∀ v ∈ vs, v.Avoids T.hidden := by
  unfold executeRemote
  refine (Task.Keeps.lift fun _ _ => ⟨⟩).bind fun xs (_ : True) => ?_
  refine (keeps_callRemote he _ _ _).bind fun reply _ => ?_
  unfold remoteStack
  exact (Task.Keeps.look _).bind fun c _ => .lift (c.avoids_resultStack reply)

/-- What a module stands for in another runtime becomes known, and the module stays the same. -/
theorem keeps_discover (he : T.Confines e) (r : RemoteModule) (hr : T.own r.module) :
    (r.discover e).Keeps (T.guard home busy) fun r' => T.own r'.module := by
  unfold RemoteModule.discover
  split
  · exact .pure hr
  refine (Task.Keeps.look _).bind fun name _ => ?_
  unfold describeRemote
  refine ((keeps_callRemote he _ _ _).bind fun _ _ => .pure (P := fun _ => True) ⟨⟩).bind
    fun doc _ => ?_
  refine .bind (.updateStore fun hs => hs.addRemoteWords hr _ _ _) fun _ _ => ?_
  exact (keeps_log _ _ _).bind fun _ _ => .pure hr

theorem keeps_useRemoteModules (he : T.Confines e) (client : Nat) (runtime qualifier : String)
    (names : List String) :
    (useRemoteModules e client runtime qualifier names).Keeps (T.guard home busy) fun _ => True := by
  induction names with
  | nil => exact .pure ⟨⟩
  | cons name rest ih =>
    unfold useRemoteModules
    refine .bind (P := T.block) (.ofStore fun hs => hs.addModule rfl rfl rfl (List.forall_mem_nil _))
      fun module hblock => ?_
    refine (keeps_discover he _ (T.own_of_block hblock)).bind fun r hr => ?_
    exact (keeps_importModule he (.inl hr) _).bind fun _ _ => ih

/-! ## Native code -/

/-- Changes of the profile do not lead out of the territory. -/
theorem keeps_profile (f : Interp → Profile) :
    (Task.update fun i => { i with profile := f i }).Keeps (T.guard home busy) fun _ => True :=
  .update fun hi => hi.holding id

theorem keeps_fresh : (Task.ofStore Store.freshId).Keeps (T.guard home busy) fun _ => True :=
  .ofStore fun hs => ⟨⟨⟩, hs.same⟩

/-- Queries that give no hidden variable away are answered with replies that do not. -/
theorem keeps_answer (he : T.Confines e) {q : Query} (hq : q.Avoids T.hidden) :
    (answer e q).Keeps (T.guard home busy) (q.ReplyAvoids T.hidden) := by
  cases q with
  | pop => exact keeps_pop
  | peek =>
    refine ⟨fun {i s} hi hs => ?_⟩
    simp only [answer]
    split
    · rename_i v hv
      exact .ok (hi.avoids.stack v (List.mem_of_head? hv)) hi hs
    · exact .fault hi hs
  | popN n => exact keeps_popN n
  | top => exact .view fun hi _ v hv => hi.avoids.stack v (List.mem_of_head? hv)
  | push v => exact keeps_push hq
  | stack => exact keeps_stack
  | setStack vs => exact keeps_setStack hq
  | run source => exact (he.run source _).call
  | attempt source =>
    refine (he.run source _).call.attempt.bind fun outcome _ => ?_
    cases outcome with
    | ok => exact .pure ⟨⟩
    | error f => exact .pure ⟨⟩
  | findWord name =>
    refine (Task.Keeps.look _).bind fun found _ => ?_
    refine (Task.Keeps.lift fun _ _ => ⟨⟩).bind fun w (_ : True) => ?_
    split
    · exact .pure ⟨⟩
    · exact keeps_fresh.bind fun _ _ => .pure ⟨⟩
  | findModule name =>
    refine keeps_interp.bind fun i hi => (keeps_findModule hi name).bind fun m _ => ?_
    exact (Task.Keeps.look _).bind fun _ _ => .pure ⟨⟩
  | variableNamed name =>
    refine (keeps_current _).bind fun m hm => ?_
    exact .bind (.ofStore fun hs => hs.variableCell hm name Val.avoids_null) fun _ hcell =>
      .pure hcell
  | fetch cell => exact .view fun _ hs => hs.avoids.cells cell
  | store cell v => exact .updateStore fun hs => hs.put hq.1 hq.2
  | requireScope operation => exact (keeps_current operation).bind fun _ _ => .pure ⟨⟩
  | exportNames names => exact keeps_updateCurrent _ fun _ => .same
  | useModules imports => exact (keeps_useModules he imports).call
  | startProfile => exact keeps_profile _
  | stopProfile => exact keeps_profile _
  | stamp label =>
    exact .bind (P := fun _ => True) (.ofStore fun hs => ⟨⟨⟩, hs.same⟩) fun _ _ => keeps_profile _
  | profile =>
    exact .view fun {i _} _ _ => Val.avoids_of_isSerializable i.profile.isSerializable_toRecord
  | print line => exact .updateStore fun hs => hs.same
  | fresh => exact keeps_fresh
  | turn => exact .turn
  | never => exact (Task.Keeps.wait _).bind fun _ _ => .pure ⟨⟩
  | connect pool name address => exact ⟨fun hi hs => .ok ⟨⟩ hi (hs.connect _ _ _ _)⟩
  | disconnect pool name => exact ⟨fun hi hs => .ok ⟨⟩ hi (hs.disconnect _ _)⟩
  | useRemote pool runtime qualifier modules =>
    refine (Task.Keeps.look _).bind fun found _ => ?_
    cases found with
    | some client => exact keeps_useRemoteModules he client runtime qualifier modules
    | none => exact .throw
  | callLocation | topInput | connections _ => exact .look _

theorem keeps_perform (he : T.Confines e) {α : Type} {P : α → Prop} {x : Native α}
    (hx : x.Avoids T.hidden P) : (perform e x).Keeps (T.guard home busy) P := by
  induction x with
  | done a => exact .pure hx
  | fail f => exact .throw
  | ask q next ih => exact (keeps_answer he hx.1).bind fun r hr => ih r (hx.2 r hr)

/-! ## Failures -/

theorem keeps_tryHandlers (he : T.Confines e) (name : String) (f : Fault) {handlers : List Handler}
    (hh : ∀ h ∈ handlers, h.Avoids T.hidden) :
    (tryHandlers e name f handlers).Keeps (T.guard home busy) fun _ => True := by
  induction handlers with
  | nil => exact .pure ⟨⟩
  | cons h rest ih =>
    obtain ⟨hhead, hrest⟩ := List.forall_mem_cons.mp hh
    unfold tryHandlers
    refine ((keeps_perform he (hhead f)).callCode false).attempt.bind fun outcome _ => ?_
    cases outcome with
    | ok => exact .pure ⟨⟩
    | error f' => exact (keeps_log _ _ _).bind fun _ _ => ih hrest

theorem keeps_recover (he : T.Confines e) (label : WordLabel) {handlers : List Handler}
    (hh : ∀ h ∈ handlers, h.Avoids T.hidden) (f : Fault) :
    (recover e label handlers f).Keeps (T.guard home busy) fun _ => True := by
  unfold recover
  split
  · exact .throw
  refine (keeps_tryHandlers he _ _ hh).call.bind fun handled _ => ?_
  split
  · exact .pure ⟨⟩
  split
  · exact .throw
  · exact (Task.Keeps.look _).bind fun _ _ => .throw

theorem keeps_guarded (he : T.Confines e) (label : WordLabel) {handlers : List Handler}
    (hh : ∀ h ∈ handlers, h.Avoids T.hidden) {x : Task Unit}
    (hx : x.Keeps (T.guard home busy) fun _ => True) :
    (guarded e label handlers x).Keeps (T.guard home busy) fun _ => True := by
  unfold guarded
  refine hx.attempt.bind fun outcome _ => ?_
  cases outcome with
  | ok => exact .pure ⟨⟩
  | error f => exact (keeps_recover he label hh f).call

/-! ## Words -/

theorem keeps_callNative (he : T.Confines e) (inputs : Nat) (hasOptions waits : Bool)
    {code : List Val → Options → Native (Option Val)}
    (hcode : ∀ args options, (∀ v ∈ args, v.Avoids T.hidden) →
      (∀ e ∈ Options.entries options, e.2.Avoids T.hidden) →
      (code args options).Avoids T.hidden fun r => ∀ v ∈ r, v.Avoids T.hidden) :
    (callNative e inputs hasOptions waits code).Keeps (T.guard home busy) fun _ => True := by
  unfold callNative
  have hrest : ∀ options : Options, (∀ e ∈ options.entries, e.2.Avoids T.hidden) → (do
      let args ← Task.popN inputs
      let result ← Task.callCode waits (perform e (code args options))
      Task.pushSome result : Task Unit).Keeps (T.guard home busy) fun _ => True := by
    intro options hoptions
    refine (keeps_popN inputs).bind fun args hargs => ?_
    have hkeeps : (perform e (code args options)).Keeps (T.guard home busy) _ :=
      keeps_perform he (hcode args options hargs hoptions)
    refine (hkeeps.callCode waits).bind fun result hresult => ?_
    cases result with
    | some v => exact keeps_push (hresult v rfl)
    | none => exact .pure ⟨⟩
  split
  · exact keeps_takeOptions.bind fun options hoptions => hrest options hoptions
  · exact hrest .empty (List.forall_mem_nil _)

theorem keeps_setMemo (cell : Nat) {f : Memo → Memo}
    (hf : ∀ {m : Memo}, m.Avoids T.hidden → (f m).Avoids T.hidden) :
    (Task.updateStore fun s => s.setMemo cell (f (s.memo cell))).Keeps (T.guard home busy)
      fun _ => True :=
  .updateStore fun hs => hs.setMemo (hf (hs.avoids.memos cell))

theorem keeps_conclude (cell : Nat) {outcome : Except Fault Val}
    (ho : Yields (Val.Avoids T.hidden) outcome) :
    (Task.conclude cell outcome).Keeps (T.guard home busy) (Val.Avoids T.hidden) := by
  unfold Task.conclude
  refine (keeps_setMemo cell fun hm => hm.finish ho).bind fun _ _ => Task.Keeps.turn.bind
    fun _ _ => ?_
  exact (keeps_setMemo cell fun hm => hm.close ho).bind fun _ _ => .lift ho

theorem keeps_join (cell number : Nat) :
    (Task.join cell number).Keeps (T.guard home busy) (Val.Avoids T.hidden) := by
  have houtcome : ∀ x : Option (Except Fault Val) → Task Val, (∀ o, x (some o) = Task.lift o) →
      x none = Task.exhausted →
      ((Task.view fun _ s => (s.memo cell).outcome? number) >>= x).Keeps (T.guard home busy)
        (Val.Avoids T.hidden) := by
    intro x hsome hnone
    refine .bind (P := fun o => ∀ r, o = some r → Yields (Val.Avoids T.hidden) r)
      (.view fun _ hs r hr => (hs.avoids.memos cell).outcome? hr) fun outcome ho => ?_
    cases outcome with
    | some o => exact hsome o ▸ .lift (ho o rfl)
    | none => exact hnone ▸ .exhausted
  unfold Task.join
  refine Task.Keeps.turn.bind fun _ _ => (Task.Keeps.look _).bind fun found _ => ?_
  split
  · exact Task.Keeps.turn.bind fun _ _ => houtcome _ (fun _ => rfl) rfl
  · exact (Task.Keeps.wait _).bind fun _ _ => houtcome _ (fun _ => rfl) rfl

theorem keeps_refresh (cell : Nat) {run : Task Unit}
    (hrun : run.Keeps (T.guard home busy) fun _ => True) :
    (refresh cell run).Keeps (T.guard home busy) (Val.Avoids T.hidden) := by
  refine ⟨fun {i s} hi hs => ?_⟩
  have hm := hs.avoids.memos cell
  cases hc : (s.memo cell).current with
  | none =>
    rw [refresh_of_idle hc]
    refine Task.Keeps.steps ?_ hi (hs.setMemo ⟨hm.value, hm.outcomes⟩)
    exact (hrun.call.bind fun _ _ => keeps_pop).attempt.bind fun outcome ho =>
      keeps_conclude cell ho
  | some number =>
    rw [refresh_of_running hc]
    exact (keeps_join cell number).steps hi (hs.setMemo hm)

/-- The items of an array come from the stack. -/
theorem keeps_closeArray : closeArray.Keeps (T.guard home busy) fun _ => True := by
  unfold closeArray
  refine keeps_interp.bind fun i hi => ?_
  split
  · exact .throw
  · refine .bind (.update fun hi => hi.holding id) fun _ _ => ?_
    split
    · exact .throw
    · refine .update fun hj => hj.withStack (List.forall_mem_cons.mpr ⟨?_, fun v hv => ?_⟩)
      · exact Val.avoids_array.mpr fun v hv =>
          hi.avoids.stack v (List.mem_of_mem_take (List.mem_reverse.mp hv))
      · exact hi.avoids.stack v (List.mem_of_mem_drop hv)

/-- A block is a new module, or one inside of a module of the territory. -/
theorem keeps_openModule (name : String) :
    (openModule name).Keeps (T.guard home busy) fun _ => True := by
  unfold openModule
  split
  · exact .update fun hi => hi.enter (hi.app ▸ hi.home)
  refine (keeps_current _).bind fun parent hparent => ?_
  refine Task.Keeps.bind (P := fun module => ∀ c ∈ module.children, T.block c.2)
    (.view fun _ hs => hs.children hparent) fun module hmodule => ?_
  split
  · rename_i child hchild
    exact .update fun hi => hi.enter (T.own_of_block (hmodule _ (mem_of_lookup hchild)))
  · refine .bind (P := T.own) (.ofStore fun {s} hs => ?_) fun child hchild => ?_
    · obtain ⟨hblock, ht⟩ := hs.addModule (x := { name }) rfl rfl rfl (List.forall_mem_nil _)
      refine ⟨T.own_of_block hblock, ht.updateModule hparent fun _ =>
        ⟨rfl, id, rfl, fun _ => .inl, fun c hc => ?_⟩⟩
      obtain hc | hc := List.mem_append.mp hc
      · exact .inl hc
      · obtain rfl := List.mem_singleton.mp hc
        exact .inr ⟨hblock, Nat.lt_of_lt_of_eq (Nat.lt_succ_self _) (Array.size_push ..).symm⟩
    · refine .update fun {i} hi => ?_
      split
      · exact (hi.register (.inl hchild) name).enter hchild
      · exact hi.enter hchild

theorem keeps_closeModule : closeModule.Keeps (T.guard home busy) fun _ => True := by
  unfold closeModule
  refine keeps_interp.bind fun i _ => ?_
  split
  · exact .throw
  · exact .update fun hi => hi.leave

theorem keeps_noteDispatch (w : Word) (location : Option Location) :
    (noteDispatch w location).Keeps (T.guard home busy) fun _ => True :=
  .update fun hi => hi.holding id

mutual
theorem keeps_execute (he : T.Confines e) :
    ∀ w : Word, w.Avoids T.hidden → (execute e w).Keeps (T.guard home busy) fun _ => True
  | .constant _ v, hw => by
    rw [Word.Avoids] at hw
    unfold execute
    exact keeps_push hw
  | .definition label body, hw => by
    rw [Word.Avoids] at hw
    unfold execute
    exact (Task.Keeps.look _).bind fun call _ => keeps_executeBody he label.name call body hw
  | .native label inputs hasOptions waits code handlers, hw => by
    rw [Word.Avoids] at hw
    unfold execute
    exact keeps_guarded he label hw.2 (keeps_callNative he inputs hasOptions waits hw.1)
  | .direct label waits code handlers, hw => by
    rw [Word.Avoids] at hw
    unfold execute
    exact keeps_guarded he label hw.2 ((keeps_perform he hw.1).callCode waits)
  | .memo _ cell word, hw => by
    rw [Word.Avoids] at hw
    unfold execute
    refine .bind (P := fun o => ∀ v ∈ o, v.Avoids T.hidden)
      (.view fun _ hs => (hs.avoids.memos cell).value) fun value hvalue => ?_
    cases value with
    | some v => exact keeps_push (hvalue v rfl)
    | none =>
      exact (keeps_refresh cell (keeps_execute he word hw)).call.bind fun v hv => keeps_push hv
  | .memoRefresh _ cell word, hw => by
    rw [Word.Avoids] at hw
    unfold execute
    exact (keeps_refresh cell (keeps_execute he word hw)).call.bind fun _ _ => .pure ⟨⟩
  | .memoReload _ cell word, hw => by
    rw [Word.Avoids] at hw
    unfold execute
    exact (keeps_refresh cell (keeps_execute he word hw)).call.bind fun v hv => keeps_push hv
  | .openArray, _ => by
    unfold execute
    exact .update fun hi => hi.holding id
  | .closeArray, _ => by unfold execute; exact keeps_closeArray
  | .openModule name, _ => by unfold execute; exact keeps_openModule name
  | .closeModule, _ => by unfold execute; exact keeps_closeModule
  | .remote label client _ _, _ => by
    unfold execute
    refine keeps_guarded he label (List.forall_mem_nil _) ((Task.Keeps.look _).bind fun vs _ => ?_)
    exact (keeps_executeRemote he client label.name vs).bind fun vs hvs => keeps_setStack hvs

theorem keeps_executeBody (he : T.Confines e) (name : String) (call : Option Location) :
    ∀ body : List (Word × Location), Word.BodyAvoids T.hidden body →
      (executeBody e name call body).Keeps (T.guard home busy) fun _ => True
  | [], _ => by unfold executeBody; exact .pure ⟨⟩
  | (w, location) :: rest, hbody => by
    rw [Word.BodyAvoids] at hbody
    unfold executeBody
    refine ((keeps_noteDispatch w location).bind fun _ _ =>
      (keeps_execute he w hbody.1).call).call.attempt.bind fun outcome _ => ?_
    cases outcome with
    | ok => exact keeps_executeBody he name call rest hbody.2
    | error f =>
      simp only
      split
      · exact .throw
      · exact .throw
end

theorem keeps_dispatch (he : T.Confines e) {w : Word} (hw : w.Avoids T.hidden)
    (location : Option Location) :
    (dispatch e w location).Keeps (T.guard home busy) fun _ => True :=
  (keeps_noteDispatch w location).bind fun _ _ => (keeps_execute he w hw).call

/-! ## Runs -/

theorem keeps_drainPending (he : T.Confines e) (bound : Nat) :
    (drainPending e bound).Keeps (T.guard home busy) fun _ => True := by
  induction bound with
  | zero => exact .pure ⟨⟩
  | succ bound ih =>
    unfold drainPending
    refine keeps_interp.bind fun i hi => ?_
    split
    · exact .pure ⟨⟩
    rename_i m rest hp
    obtain ⟨hm, hrest⟩ := List.forall_mem_cons.mp (hp ▸ hi.pending)
    refine .bind (.update fun hj => hj.await hrest) fun _ _ => ?_
    refine (keeps_initializeModule he hm).call.attempt.bind fun outcome _ => ?_
    cases outcome with
    | ok => exact ih
    | error f =>
      refine .bind (.update fun hj => ?_) fun _ _ => .throw
      exact hj.await (List.forall_mem_cons.mpr ⟨hm, hj.pending⟩)

theorem keeps_initializePending (he : T.Confines e) :
    (initializePending e).Keeps (T.guard home busy) fun _ => True :=
  keeps_interp.bind fun _ _ => keeps_drainPending he _

/-- A change of the open definition, which does not lead out of the territory. -/
theorem Within.compiled (hi : T.Within home busy i) {definition : Option OpenDefinition}
    (hd : ∀ d ∈ definition, Word.BodyAvoids T.hidden d.body) (compiling memoDefinition : Bool) :
    T.Within home busy { i with definition, compiling, memoDefinition } :=
  hi.holding fun h => ⟨h.stack, hd, h.recovery, h.readers⟩

/-- A word that is compiled refers to no hidden variable. -/
theorem bodyAvoids_compile {hidden : Nat → Prop} {d : OpenDefinition} {w : Word}
    (hd : Word.BodyAvoids hidden d.body) (hw : w.Avoids hidden) (location : Location) :
    Word.BodyAvoids hidden (compile w location d).body := by
  rw [Word.bodyAvoids_iff] at hd ⊢
  intro x hx
  obtain hx | hx := List.mem_append.mp hx
  · exact hd x hx
  · exact List.mem_singleton.mp hx ▸ hw

theorem keeps_handleWord (he : T.Confines e) {w : Word} (hw : w.Avoids T.hidden)
    (location : Location) : (handleWord e w location).Keeps (T.guard home busy) fun _ => True := by
  unfold handleWord
  refine keeps_interp.bind fun i hi => ?_
  split
  · rename_i d _ hd
    refine .update fun {j} hj => hj.compiled (fun d' hd' => ?_) j.compiling j.memoDefinition
    obtain rfl := Option.some.inj hd'
    exact bodyAvoids_compile (hi.avoids.definition d hd) hw location
  · exact (keeps_dispatch he hw _).call

theorem keeps_handleImmediate (he : T.Confines e) {w : Word} (hw : w.Avoids T.hidden)
    (location : Location) :
    (handleImmediate e w location).Keeps (T.guard home busy) fun _ => True := by
  unfold handleImmediate
  refine .bind (.update fun {i} hi => ?_) fun _ _ => (keeps_dispatch he hw _).call
  split
  · refine hi.compiled (fun d' hd' => ?_) i.compiling i.memoDefinition
    obtain ⟨d, hd, rfl⟩ := Option.map_eq_some_iff.mp hd'
    exact bodyAvoids_compile (hi.avoids.definition d hd) hw location
  · exact hi

theorem keeps_startDefinition (t : Token) :
    (startDefinition t).Keeps (T.guard home busy) fun _ => True := by
  unfold startDefinition
  refine keeps_interp.bind fun i _ => ?_
  split
  · exact .throw
  · refine .update fun hi => hi.compiled (fun d hd => ?_) _ _
    obtain rfl := Option.some.inj hd
    rw [Word.BodyAvoids]
    trivial

theorem keeps_endDefinition (t : Token) :
    (endDefinition t).Keeps (T.guard home busy) fun _ => True := by
  unfold endDefinition
  refine keeps_interp.bind fun i hi => ?_
  have hclose : (Task.update fun i => { i with
      compiling := false, memoDefinition := false, definition := none }).Keeps (T.guard home busy)
        fun _ => True :=
    .update fun hi => hi.compiled (fun d hd => absurd hd (Option.not_mem_none d)) _ _
  split
  · rename_i d _ hd
    have hw : d.word.Avoids T.hidden := by
      rw [OpenDefinition.word, Word.Avoids]
      exact hi.avoids.definition d hd
    split
    · refine (keeps_current _).bind fun m hm => ?_
      exact .bind (.updateStore fun hs => hs.addMemoWords hm hw) fun _ _ => hclose
    · refine (keeps_current _).bind fun m hm => ?_
      exact .bind (.updateStore fun hs => hs.addWord hm hw) fun _ _ => hclose
  · exact .throw

theorem keeps_handleToken (he : T.Confines e) (t : Token) :
    (handleToken e t).Keeps (T.guard home busy) fun _ => True := by
  have hstr : ∀ label s, (Word.constant label (.str s)).Avoids T.hidden := by
    intro label s
    rw [Word.Avoids]
    exact Val.avoids_str s
  -- brackets hold no values
  have hbracket : ∀ name, Word.openArray.Avoids T.hidden ∧ Word.closeArray.Avoids T.hidden ∧
      (Word.openModule name).Avoids T.hidden ∧ Word.closeModule.Avoids T.hidden := by
    intro name
    simp [Word.Avoids]
  unfold handleToken
  split
  · exact (keeps_handleWord he (hstr _ _) _).handOn
  · exact (keeps_handleWord he (hstr _ _) _).handOn
  · exact .pure ⟨⟩
  · exact (keeps_handleWord he (hbracket "").1 _).handOn
  · exact (keeps_handleWord he (hbracket "").2.1 _).handOn
  · exact (keeps_handleImmediate he (hbracket _).2.2.1 _).handOn
  · exact (keeps_handleImmediate he (hbracket "").2.2.2 _).handOn
  · exact keeps_startDefinition t
  · exact keeps_startDefinition t
  · exact keeps_endDefinition t
  · refine (keeps_resolve _ _).bind fun found hfound => ?_
    exact (Task.Keeps.lift hfound).bind fun w hw => (keeps_handleWord he hw _).handOn
  · refine keeps_interp.bind fun i _ => ?_
    split
    · exact .throw
    · exact .pure ⟨⟩

theorem keeps_runTokens (he : T.Confines e) (bound : Nat) (sc : Scanner) :
    (runTokens e bound sc).Keeps (T.guard home busy) fun _ => True := by
  induction bound generalizing sc with
  | zero => exact .exhausted
  | succ bound ih =>
    unfold runTokens
    split
    · exact .pure ⟨⟩
    · refine (keeps_handleToken he _).call.attempt.bind fun outcome _ => ?_
      cases outcome with
      | error f => exact .pure ⟨⟩
      | ok =>
        refine .bind (.update fun hi => hi.holding id) fun _ _ => ?_
        split
        · exact .pure ⟨⟩
        · exact ih _

theorem keeps_runRecovering (he : T.Confines e) {h : Handler} (hh : h.Avoids T.hidden)
    (left used : Nat) (sc : Scanner) :
    (runRecovering e h left used sc).Keeps (T.guard home busy) fun _ => True := by
  induction left generalizing used sc with
  | zero => exact keeps_interp.bind fun _ _ => .throw
  | succ left ih =>
    unfold runRecovering
    refine (keeps_runTokens he _ sc).call.bind fun stopped _ => ?_
    cases stopped with
    | none => exact .pure ⟨⟩
    | some stopped =>
      obtain ⟨f, sc'⟩ := stopped
      exact ((keeps_perform he (hh f)).callCode false).bind fun _ _ => ih _ _

theorem keeps_runScanner (he : T.Confines e) (sc : Scanner) :
    (runScanner e sc).Keeps (T.guard home busy) fun _ => True := by
  unfold runScanner
  refine keeps_interp.bind fun i hi => ?_
  split
  · rename_i h hrecovery
    exact (keeps_runRecovering he (hi.avoids.recovery h hrecovery) _ _ sc).call
  · refine (keeps_runTokens he _ sc).call.bind fun stopped _ => ?_
    split
    · exact .pure ⟨⟩
    · exact .throw

theorem keeps_closeRun {saved : Transient}
    (hd : ∀ d ∈ saved.definition, Word.BodyAvoids T.hidden d.body) (outcome : Except Fault Unit) :
    (Task.closeRun saved outcome).Keeps (T.guard home busy) fun _ => True := by
  cases outcome with
  | ok => exact .update fun hi => hi.holding id
  | error f => exact .bind (.update fun hi => hi.restore hd _) fun _ _ => .throw

theorem keeps_ownRun (he : T.Confines e) (isOutermost : Bool) (sc : Scanner) :
    (Task.ownRun e isOutermost sc).Keeps (T.guard home busy) fun _ => True := by
  have hcheck : (checkBrackets isOutermost).Keeps (T.guard home busy) fun _ => True := by
    unfold checkBrackets
    refine keeps_interp.bind fun i _ => ?_
    split
    · exact .throw
    · exact .pure ⟨⟩
  unfold Task.ownRun
  refine .bind (P := fun saved => ∀ d ∈ saved.definition, Word.BodyAvoids T.hidden d.body)
    (.view fun hi _ => hi.avoids.definition) fun saved hsaved => ?_
  refine .bind (.update fun hi => hi.holding id) fun _ _ => ?_
  exact ((keeps_runScanner he _).bind fun _ _ => hcheck).attempt.bind fun outcome _ =>
    keeps_closeRun hsaved outcome

theorem keeps_runSource (he : T.Confines e) (source : String) (origin : Location) :
    (runSource e source origin).Keeps (T.guard home busy) fun _ => True := by
  refine ⟨fun {i s} hi hs => ?_⟩
  by_cases hin : i.inputs = []
  · rw [runSource_outermost hin]
    exact ((keeps_initializePending he).call.bind fun _ _ => keeps_ownRun he true _).steps hi hs
  · rw [runSource_inner hin]
    exact (keeps_ownRun he false _).steps hi hs

theorem keeps_executeWord (he : T.Confines e) (name : String) :
    (executeWord e name).Keeps (T.guard home busy) fun _ => True := by
  unfold executeWord
  refine (keeps_initializePending he).call.bind fun _ _ => (keeps_resolve _ _).bind
    fun found hfound => ?_
  exact (Task.Keeps.lift hfound).bind fun w hw => (keeps_dispatch he hw none).call

end Territory

end Wordstack
