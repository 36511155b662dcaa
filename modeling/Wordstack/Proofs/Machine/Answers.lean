import Wordstack.Proofs.Machine.Primitives

/-!
# Native code in lockstep

- **Nested work** (`Nested.Alike`): runs and requests that are alike from any texts in progress.
- **Modules** (`initializeModule`, `useModules`) and **other runtimes** (`callRemote`, …).
- **Answers** (`Task.Alike.answer`) and **native code** (`Task.Alike.perform`): code that is alike
  gets replies that are and ends alike.
-/

namespace Wordstack

namespace Likeness

/-- The likeness for other texts in progress, and other pending modules. -/
def reading (L : Likeness) (inputs : List String) (pending : Nat) : Likeness :=
  { L with inputs, pending }

/-- The likeness at the end of a run from `origin`. -/
def ended (L : Likeness) (origin : Location) : Likeness :=
  { L with holds := fun i => L.holds i ∧ (origin.source.isSome → L.floor ≤ i.scope.length) }

/-- The likeness where faults are equal. -/
def exactly (L : Likeness) : Likeness := { L with blurs := false }

variable {L : Likeness}

theorem Sound.reading (hL : L.Sound) (inputs : List String) (pending : Nat) :
    (L.reading inputs pending).Sound :=
  ⟨hL.texts, hL.blurs, hL.blind, hL.relocates, hL.floor, hL.holds, hL.recovery⟩

/-- Likenesses that differ in what holds of the first interpreter only. -/
theorem Interps.refit {L' : Likeness} {i j : Interp} (hi : L.Interps i j) (hf : L.Fits i → L'.Fits i)
    (hs : L'.second = L.second) (hl : L'.loose = L.loose) (hr : L'.relocates = L.relocates) :
    L'.Interps i j :=
  ⟨hi.rest, hi.inputs.trans hs.symm, hf hi.fits, fun h => hi.tight (hl ▸ h), hr ▸ hi.definition⟩

/-- Fewer modules may be pending. -/
theorem reading_le {n : Nat} (h : n ≤ L.pending) : (L.reading L.inputs n).Le L where
  interps hi := hi.refit (fun hf => ⟨hf.inputs, Nat.le_trans hf.pending h, hf.holds, hf.body⟩)
    rfl rfl rfl
  stores := id
  fault := id

theorem ended_le (L : Likeness) (origin : Location) : (L.ended origin).Le L where
  interps hi := hi.refit (fun hf => ⟨hf.inputs, hf.pending, hf.holds.1, hf.body⟩) rfl rfl rfl
  stores := id
  fault := id

theorem le_ended (h : L.floor = 0) (origin : Location) : L.Le (L.ended origin) where
  interps hi := hi.refit (fun hf => ⟨hf.inputs, hf.pending, ⟨hf.holds, fun _ => by simp [h]⟩,
    hf.body⟩) rfl rfl rfl
  stores := id
  fault := id

theorem interps_exactly {i j : Interp} : L.exactly.Interps i j ↔ L.Interps i j :=
  ⟨fun hi => hi.refit (fun hf => ⟨hf.inputs, hf.pending, hf.holds, hf.body⟩) rfl rfl rfl,
   fun hi => hi.refit (fun hf => ⟨hf.inputs, hf.pending, hf.holds, hf.body⟩) rfl rfl rfl⟩

theorem exactly_le (L : Likeness) : L.exactly.Le L where
  interps := interps_exactly.mp
  stores := id
  fault := fun h => .of_eq h

end Likeness

/-- Nested work that is alike, whatever the texts in progress are. -/
structure Nested.Alike (L : Likeness) (e e' : Nested) : Prop where
  run : ∀ {inputs : List String} {pending : Nat} (source : String) (origin : Location),
    pending ≤ L.pending →
      Task.Alike (L.reading inputs pending) ((L.reading inputs pending).ended origin) (· = ·)
        (e.run source origin) (e'.run source origin)
  send : ∀ {inputs : List String} {pending : Nat} (url : String) (method : Method) (body : Json),
    pending ≤ L.pending →
      Task.Alike (L.reading inputs pending).exactly (L.reading inputs pending).exactly (· = ·)
        (e.send url method body) (e'.send url method body)

namespace Nested.Alike

variable {L : Likeness} {e e' : Nested}

theorem reading (h : Nested.Alike L e e') (inputs : List String) {pending : Nat}
    (hp : pending ≤ L.pending) : Nested.Alike (L.reading inputs pending) e e' :=
  ⟨fun source origin hle => h.run source origin (Nat.le_trans hle hp),
    fun url method body hle => h.send url method body (Nat.le_trans hle hp)⟩

/-- A run where the likeness stands. -/
theorem run_here (h : Nested.Alike L e e') (source : String) (origin : Location) :
    Task.Alike L (L.ended origin) (· = ·) (e.run source origin) (e'.run source origin) :=
  h.run source origin (Nat.le_refl L.pending)

theorem send_here (h : Nested.Alike L e e') (url : String) (method : Method) (body : Json) :
    Task.Alike L L (· = ·) (e.send url method body) (e'.send url method body) :=
  ⟨fun hi hs => ((h.send url method body (Nat.le_refl L.pending)).steps
    (Likeness.interps_exactly.mpr hi) hs).mono L.exactly_le fun _ _ => id⟩

end Nested.Alike

/-! ## Modules -/

namespace Interp

/-- The interpreter in the scope of a module whose source is run. -/
def enterModule (m : Nat) (i : Interp) : Interp :=
  { i with initializing := m :: i.initializing, scope := m :: i.scope }

/-- The interpreter after the source of a module was run. -/
def leaveModule (m : Nat) (i : Interp) : Interp :=
  { i with initializing := i.initializing.filter (· != m), scope := i.scope.tail }

end Interp

namespace Task.Alike

variable {L : Likeness} {e e' : Nested}

theorem enterModule (hL : L.Sound) (m : Nat) :
    Alike L L (· = ·) (Task.update (Interp.enterModule m)) (Task.update (Interp.enterModule m)) :=
  ⟨fun hi hs => .ok rfl (hi.update (Interp.enterModule m) (fun _ _ => rfl)
    (fun hf => ⟨hf.inputs, hf.pending,
      hL.holds.change (hL.holds.change hf.holds (.initializing (m :: _))) (.enter m), hf.body⟩)
    rfl rfl rfl) hs⟩

/-- The scope of a module is left where its source's run has ended. -/
theorem leaveModule (hL : L.Sound) (m : Nat) {origin : Location} (ho : origin.source.isSome) :
    Alike (L.ended origin) L (· = ·) (Task.update (Interp.leaveModule m))
      (Task.update (Interp.leaveModule m)) :=
  ⟨fun hi hs => .ok rfl (hi.update (Interp.leaveModule m) (fun _ _ => rfl)
    (fun hf => ⟨hf.inputs, hf.pending,
      hL.holds.change (hL.holds.change hf.holds.1 (.leave (hf.holds.2 ho))) (.initializing _),
      hf.body⟩) rfl rfl rfl) hs⟩

theorem initializeModule (hL : L.Sound) (he : Nested.Alike L e e') (m : Nat) :
    Alike L L (· = ·) (initializeModule e m) (initializeModule e' m) := by
  unfold Wordstack.initializeModule
  refine (viewing (R := (· = ·)) fun hi hs => ?_).bind ?_
  · rw [hi.view Interp.initializing fun _ _ => rfl, hs.viewModule m Module.isReady fun _ => rfl]
  rintro skip _ rfl
  split
  · exact pure rfl
  refine (viewing (R := fun x y => x.name = y.name ∧ x.source = y.source)
    fun _ hs => ⟨?_, ?_⟩).bind ?_
  · exact (hs.viewModule m Module.name fun _ => rfl).symm
  · exact (hs.viewModule m Module.source fun _ => rfl).symm
  rintro x y ⟨hname, hsource⟩
  rw [← hname, ← hsource]
  refine (enterModule hL m).bind fun _ _ _ => ?_
  refine (he.run_here _ _).call.attempt_bind id fun a b hab => ?_
  cases hab with
  | ok =>
    refine (updateStore (f := fun s => s.updateModule m fun x => { x with isReady := true })
      fun hs => hs.updateModule m (fun _ => rfl) fun _ _ hm => hm).bind_to (L.ended_le _)
        fun _ _ _ => ?_
    exact (leaveModule hL m rfl).bind_to (.refl L) fun _ _ _ => pure rfl
  | error hf =>
    refine (leaveModule hL m rfl).bind_to (.refl L) fun _ _ _ => ?_
    exact throw (Fault.Alike.wrap (k := fun f => .moduleFailed x.name (some f)) hf
      fun h => by simp [Fault.blur, h])

theorem useModules (hL : L.Sound) (he : Nested.Alike L e e') (imports : List (String × String)) :
    Alike L L (· = ·) (useModules e imports) (useModules e' imports) := by
  induction imports with
  | nil => exact pure rfl
  | cons imp rest ih =>
    obtain ⟨name, qualifier⟩ := imp
    unfold Wordstack.useModules
    refine interp_bind fun hi hs => ((lift (findModule hL hi name)).bind ?_).steps hi hs
    rintro m _ rfl
    refine (initializeModule hL he m).call.bind fun _ _ _ => ?_
    refine (updateCurrent _ (f := fun current => current.addImport ⟨m, qualifier⟩) (fun _ => rfl)
      fun _ _ hm => hm).bind fun _ _ _ => ?_
    exact ih

theorem importModule (hL : L.Sound) (he : Nested.Alike L e e') (m : Nat) (qualifier : String) :
    Alike L L (· = ·) (importModule e m qualifier) (importModule e' m qualifier) := by
  unfold Wordstack.importModule
  refine (register hL m).bind fun _ _ _ => ?_
  refine (viewName m).bind ?_
  rintro name _ rfl
  exact (useModules hL he _).call

/-! ## Other runtimes -/

theorem callRemote (he : Nested.Alike L e e') (client : Nat) (method : Method) (request : Json) :
    Alike L L (· = ·) (callRemote e client method request)
      (callRemote e' client method request) := by
  unfold Wordstack.callRemote
  refine (view fun _ _ _ _ => rfl).bind ?_
  rintro c _ rfl
  split
  · exact throw (.refl _ _)
  · refine (he.send_here _ _ _).bind ?_
    rintro delivery _ rfl
    exact lift_same _

theorem remoteStack (client : Nat) (reply : List (String × Json)) :
    Alike L L (· = ·) (remoteStack client reply) (remoteStack client reply) := by
  unfold Wordstack.remoteStack
  refine (view fun _ _ _ _ => rfl).bind ?_
  rintro c _ rfl
  exact lift_same _

theorem executeRemote (he : Nested.Alike L e e') (client : Nat) (word : String) (vs : List Val) :
    Alike L L (· = ·) (executeRemote e client word vs) (executeRemote e' client word vs) := by
  unfold Wordstack.executeRemote
  refine (lift_same _).bind ?_
  rintro xs _ rfl
  refine (callRemote he _ _ _).bind ?_
  rintro reply _ rfl
  exact remoteStack _ _

theorem describeRemote (he : Nested.Alike L e e') (client : Nat) (name : String) :
    Alike L L (· = ·) (describeRemote e client name) (describeRemote e' client name) := by
  unfold Wordstack.describeRemote
  refine (callRemote he _ _ _).bind ?_
  rintro reply _ rfl
  exact pure rfl

theorem discover (he : Nested.Alike L e e') (r : RemoteModule) :
    Alike L L (· = ·) (r.discover e) (r.discover e') := by
  unfold RemoteModule.discover
  split
  · exact pure rfl
  refine (viewName r.module).bind ?_
  rintro name _ rfl
  refine (describeRemote he _ _).bind ?_
  rintro doc _ rfl
  refine (updateStore fun hs => hs.addRemoteWords _ _ _ _).bind fun _ _ _ => ?_
  exact (log _ _ _).bind fun _ _ _ => pure rfl

theorem useRemoteModules (hL : L.Sound) (he : Nested.Alike L e e') (client : Nat)
    (runtime qualifier : String) (names : List String) :
    Alike L L (· = ·) (useRemoteModules e client runtime qualifier names)
      (useRemoteModules e' client runtime qualifier names) := by
  induction names with
  | nil => exact pure rfl
  | cons name rest ih =>
    unfold Wordstack.useRemoteModules
    refine (ofStore fun hs => hs.addModule rfl).bind ?_
    rintro module _ rfl
    refine (discover he _).bind ?_
    rintro r _ rfl
    exact (importModule hL he _ _).bind fun _ _ _ => ih

/-! ## Native code -/

theorem fresh : Alike L L (· = ·) (Task.ofStore Store.freshId) (Task.ofStore Store.freshId) :=
  ofStore fun hs => hs.operate Store.freshId fun _ _ => rfl

theorem run (he : Nested.Alike L e e') (source : String) (origin : Location) :
    Alike L L (· = ·) (e.run source origin).call (e'.run source origin).call :=
  ((he.run_here source origin).mono (L.ended_le origin) fun _ _ => id).call

/-- The fault of a run that a reply brings to the program. -/
theorem answerAttempt (he : Nested.Alike L e e') (source : String) :
    Alike L L (Query.Alike L.blurs (.attempt source)) (answer e (.attempt source))
      (answer e' (.attempt source)) := by
  simp only [answer]
  refine (run he source _).attempt.bind fun a b hab => ?_
  cases hab with
  | ok => exact pure .none
  | error h => exact pure (.some h)

theorem answerFindWord (hL : L.Sound) (name : String) :
    Alike L L (· = ·) (answer e (.findWord name)) (answer e' (.findWord name)) := by
  simp only [answer]
  refine ((viewing fun hi hs => findWord hL hi hs name fun _ => rfl).bind fun _ _ h =>
    lift h).bind ?_
  rintro v w ⟨hvw, -⟩
  rw [← w.id_blur, ← w.name_blur, ← hvw, v.id_blur, v.name_blur]
  split
  · exact pure rfl
  · refine fresh.bind ?_
    rintro id _ rfl
    exact pure rfl

theorem answerFindModule (hL : L.Sound) (name : String) :
    Alike L L (· = ·) (answer e (.findModule name)) (answer e' (.findModule name)) := by
  simp only [answer]
  refine interp_bind fun hi hs => ((lift (findModule hL hi name)).bind ?_).steps hi hs
  rintro m _ rfl
  refine (viewName m).bind ?_
  rintro name _ rfl
  exact pure rfl

theorem answerVariable (name : String) :
    Alike L L (· = ·) (answer e (.variableNamed name)) (answer e' (.variableNamed name)) := by
  simp only [answer]
  refine (current _).bind ?_
  rintro m _ rfl
  refine (ofStore fun hs => hs.variableCell m name .null).bind ?_
  rintro cell _ rfl
  exact pure rfl

theorem answerStamp (hL : L.Sound) (label : String) :
    Alike L L (· = ·) (answer e (.stamp label)) (answer e' (.stamp label)) := by
  simp only [answer]
  refine (ofStore fun hs => hs.operate Store.readClock fun _ _ => rfl).bind ?_
  rintro time _ rfl
  exact change hL (fun i => { i with profile := i.profile.stamp label time }) (fun _ _ => rfl)
    (fun _ => .profile _) fun _ => rfl

theorem answerNever : Alike L L (· = ·) (answer e .never) (answer e' .never) := by
  simp only [answer]
  refine ⟨fun hi hs => ?_⟩
  exact .stuck rfl rfl rfl hs (.ok rfl hi hs)

theorem answerConnect (pool : Pool) (name address : String) :
    Alike L L (· = ·) (answer e (.connect pool name address))
      (answer e' (.connect pool name address)) := by
  simp only [answer]
  refine ⟨fun hi hs => ?_⟩
  rw [hi.view pool.index fun _ _ => rfl]
  exact .ok rfl hi (hs.connect _ _ _ _)

theorem answerDisconnect (pool : Pool) (name : String) :
    Alike L L (· = ·) (answer e (.disconnect pool name)) (answer e' (.disconnect pool name)) := by
  simp only [answer]
  refine ⟨fun hi hs => ?_⟩
  rw [hi.view pool.index fun _ _ => rfl]
  exact .ok rfl hi (hs.disconnect _ _)

theorem answerUseRemote (hL : L.Sound) (he : Nested.Alike L e e') (pool : Pool)
    (runtime qualifier : String) (modules : List String) :
    Alike L L (· = ·) (answer e (.useRemote pool runtime qualifier modules))
      (answer e' (.useRemote pool runtime qualifier modules)) := by
  simp only [answer]
  refine (view (f := fun i s => (s.pool (pool.index i)).lookup runtime)
    fun _ _ _ _ => rfl).bind ?_
  rintro found _ rfl
  cases found with
  | some client => exact useRemoteModules hL he client runtime qualifier modules
  | none => exact throw (.refl _ _)

/-- Places are the same unless they may differ. -/
theorem place {α : Type} (hL : L.Sound) (f : Interp → α) :
    Alike L L (fun a b => L.loose = true ∨ a = b) (Task.view fun i _ => f i)
      (Task.view fun i _ => f i) := by
  refine viewing fun hi _ => ?_
  cases hl : L.loose with
  | false => exact .inr (by rw [hi.eq hL hl])
  | true => exact .inl rfl

/-- Queries are answered alike. -/
theorem answer (hL : L.Sound) (he : Nested.Alike L e e') (q : Query) :
    Alike L L (Query.Alike L.loose q) (answer e q) (answer e' q) := by
  cases q with
  | pop => exact pop hL
  | peek => exact peek hL e e'
  | popN n => exact popN hL n
  | top => exact view fun _ _ _ _ => rfl
  | push v => exact push hL v
  | stack => exact stack
  | setStack vs => exact setStack hL vs
  | run source => exact run he source _
  | attempt source => rw [← hL.blurs]; exact answerAttempt he source
  | findWord name => exact answerFindWord hL name
  | findModule name => exact answerFindModule hL name
  | callLocation => exact place hL Interp.call
  | topInput => exact place hL Interp.topInput
  | variableNamed name => exact answerVariable name
  | fetch cell => exact view fun _ _ _ _ => rfl
  | store cell v =>
    exact updateStore fun hs => hs.update (·.put cell v) fun _ _ => rfl
  | requireScope operation => exact (current operation).bind fun _ _ _ => pure rfl
  | exportNames names => exact updateCurrent _ (fun _ => rfl) fun _ _ hm => hm
  | useModules imports => exact (useModules hL he imports).call
  | startProfile =>
    exact change hL (fun i => { i with profile := i.profile.start }) (fun _ _ => rfl)
      (fun _ => .profile _) fun _ => rfl
  | stopProfile =>
    exact change hL (fun i => { i with profile := i.profile.stop }) (fun _ _ => rfl)
      (fun _ => .profile _) fun _ => rfl
  | stamp label => exact answerStamp hL label
  | profile => exact view fun _ _ _ _ => rfl
  | print line => exact updateStore fun hs => hs.update (·.print line) fun _ _ => rfl
  | fresh => exact fresh
  | turn => exact turn.mono (.refl L) fun _ _ _ => rfl
  | never => exact answerNever
  | connect pool name address => exact answerConnect pool name address
  | disconnect pool name => exact answerDisconnect pool name
  | connections pool => exact view fun _ _ _ _ => rfl
  | useRemote pool runtime qualifier modules =>
    exact answerUseRemote hL he pool runtime qualifier modules

/-- Native code that is alike ends alike. -/
theorem perform {α : Type} (hL : L.Sound) (he : Nested.Alike L e e') {x y : Native α}
    (h : Native.Alike L.loose x y) : Alike L L (· = ·) (perform e x) (perform e' y) := by
  induction h with
  | done a => exact pure rfl
  | fail h =>
    exact throw (by unfold Likeness.fault; rw [hL.blurs]; exact h)
  | ask q _ ih => exact (answer hL he q).bind fun r r' h => ih r r' h

end Task.Alike

end Wordstack
