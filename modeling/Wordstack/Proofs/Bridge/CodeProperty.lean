import Wordstack.Bridge.Network
import Wordstack.Proofs.Fault.Blame
import Wordstack.Proofs.Machine.CodeProperty
import Wordstack.Proofs.Machine.Confined
import Wordstack.Proofs.Machine.Requests

/-!
# Properties of nested code

The runs inside of words and the requests to other runtimes are made of the same operations as all
other code. A request is served by a new interpreter, whose outermost module is new, so it stays in
every territory in which the modules of the runtime are known.

- **New interpreters** (`Store.LeavesMemos.standard`, `Territory.Made`): making one leaves memos alone
  and changes its own modules only.
- **The service** (`CodeProperty.serveWord`, `CodeProperty.serveSequence`,
  `Territory.keeps_serveWord`, `Territory.keeps_serveSequence`).
- **Sending** (`CodeProperty.send`, `Territory.keeps_send`): whatever holds of the interpreter that
  sends a request still does.
- **Nesting** (`CodeProperty.holdsNested`, `Territory.confines_nested`): what holds of all operations
  holds of work that is nested at any depth.
-/

namespace Wordstack

/-! ## New interpreters -/

namespace Store.LeavesMemos

variable {s t : Store} {i : Interp}

theorem define {spec : ModuleSpec} {m : Nat} (h : s.define spec = .ok (m, t)) :
    s.LeavesMemos t := by
  obtain ⟨module, -, -, rfl⟩ := Store.of_define h
  exact ⟨rfl, Nat.le_add_right _ _⟩

theorem bare {settings : Interp.Settings} {isStandard : Bool}
    (h : Interp.bare s settings isStandard = .ok (i, t)) : s.LeavesMemos t := by
  obtain ⟨-, -, rfl⟩ := Interp.of_bare h
  exact ⟨rfl, Nat.le_refl _⟩

theorem attach (is : Interp × Store) (m : Nat) : is.2.LeavesMemos (Interp.attach is m).2 :=
  .updateModule is.2 _ _

theorem attachAll (is : Interp × Store) (ms : List Nat) :
    is.2.LeavesMemos (ms.foldl Interp.attach is).2 :=
  List.foldlRecOn (motive := fun p : Interp × Store => is.2.LeavesMemos p.2) ms _ (.refl _)
    fun p h m _ => h.trans (attach p m)

theorem withCore {j : Interp} (h : i.withCore s = .ok (j, t)) : s.LeavesMemos t := by
  obtain ⟨m, -, h⟩ | ⟨-, m, u, hd, h⟩ := Interp.of_withCore h
  · obtain ⟨-, rfl⟩ := Prod.mk.inj h
    exact .updateModule s _ _
  · obtain ⟨-, rfl⟩ := Prod.mk.inj h
    exact (define hd).trans (attach (i, u) m)

/-- Making an interpreter leaves memos alone. -/
theorem standard {settings : Interp.Settings} {ms : List Nat}
    (h : Interp.standard s settings ms = .ok (i, t)) : s.LeavesMemos t := by
  obtain ⟨i₀, s₀, i₁, s₁, hbare, hcore, h⟩ := Interp.of_standard h
  obtain rfl : t = _ := congrArg Prod.snd h
  exact ((bare hbare).trans (withCore hcore)).trans (attachAll (i₁, s₁) ms)

end Store.LeavesMemos

namespace CodeProperty

variable {K : CodeProperty} {e : Nested}

/-! ## The service -/

theorem seeded (r : Runtime) (stack : List Json) : K.Holds (r.seeded stack) := by
  unfold Runtime.seeded
  refine K.bind (ofStore? Store.LeavesMemos.standard) fun i => ?_
  exact K.bind (lift _) fun _ => pure _

theorem serveWord (he : K.HoldsNested e) (r : Runtime) (request : WordRequest) :
    K.Holds (r.executeWord e request) := by
  unfold Runtime.executeWord
  refine K.bind (log _ _ _) fun _ => K.bind (K.attempt ?_) fun outcome => ?_
  · refine K.bind (seeded r _) fun i => ?_
    exact K.bind (K.onOther _ (K.call (executeWord he _))) fun p => lift _
  · cases outcome with
    | ok stack => exact pure _
    | error f => exact K.bind (log _ _ _) fun _ => pure _

theorem runWords (he : K.HoldsNested e) (n : Nat) (words : List String) :
    K.Holds (Runtime.runWords e n words) := by
  induction words generalizing n with
  | nil => exact pure _
  | cons word rest ih =>
    unfold Runtime.runWords
    refine K.bind (K.attempt (K.call (executeWord he word))) fun outcome => ?_
    cases outcome with
    | ok => exact ih (n + 1)
    | error f => exact pure _

theorem serveSequence (he : K.HoldsNested e) (r : Runtime) (request : SequenceRequest) :
    K.Holds (r.executeSequence e request) := by
  unfold Runtime.executeSequence
  refine K.bind (log _ _ _) fun _ => K.bind (K.attempt (seeded r _)) fun outcome => ?_
  cases outcome with
  | error f => exact pure _
  | ok i =>
    refine K.bind (K.onOther _ (runWords he 0 _)) fun p => ?_
    obtain ⟨failure, j⟩ := p
    cases failure with
    | some w => exact pure _
    | none =>
      simp only
      split
      · exact pure _
      · exact pure _

/-! ## Calls between runtimes -/

theorem inTime {α : Type} (p : Endpoint) (method : Method) {x : Task α} (hx : K.Holds x) :
    K.Holds (p.inTime method x) := by
  unfold Endpoint.inTime
  refine K.bind (K.within _ hx) fun o => ?_
  cases o with
  | some a => exact pure _
  | none => exact pure _

theorem invoke (he : K.HoldsNested e) (p : Endpoint) (method : Method) (body : Option Json) :
    K.Holds (p.invoke e method body) := by
  unfold Endpoint.invoke
  cases method with
  | executeWord =>
    refine K.bind (lift _) fun request => ?_
    exact K.bind (inTime p _ (serveWord he _ request)) fun _ => pure _
  | executeSequence =>
    refine K.bind (lift _) fun request => ?_
    exact K.bind (inTime p _ (serveSequence he _ request)) fun _ => pure _
  | listModules => exact K.bind (look _) fun _ => pure _
  | getModuleInfo =>
    refine K.bind (lift _) fun request => K.bind (look _) fun found => ?_
    exact K.bind (lift _) fun _ => pure _

theorem send (he : K.HoldsNested e) (url : String) (method : Method) (body : Json) :
    K.Holds (Network.send e url method body) := by
  unfold Network.send
  refine K.bind (updateStore ?_) fun _ => K.bind (look _) fun endpoints => ?_
  · exact fun _ => ⟨rfl, Nat.le_refl _⟩
  split
  · exact pure _
  · rename_i p _
    have hcall : K.Holds (Http.answerCall e p method.name body.sent) := by
      unfold Http.answerCall
      split
      · exact pure _
      · refine K.bind (K.attempt (invoke he p _ _)) fun outcome => ?_
        cases outcome with
        | ok x => exact pure _
        | error f => exact pure _
    exact K.bind hcall fun _ => pure _

/-! ## Nesting -/

/-- Nested work has every property of code that considers its machines. -/
theorem holdsNested (hm : ∀ depth, K.Machine (nested depth)) (depth : Nat) :
    K.HoldsNested (nested depth) := by
  induction depth with
  | zero => exact ⟨hm 0, fun _ _ => exhausted, fun _ _ _ => exhausted⟩
  | succ depth ih =>
    exact ⟨hm _, fun source origin => runSource ih source origin,
      fun url method body => send ih url method body⟩

end CodeProperty

namespace Territory

variable {T : Territory} {H : Interp → Prop} {home : Nat} {i : Interp} {s t : Store} {m : Nat}

/-! ## New interpreters -/

/-- What making an interpreter leaves: one that is in the territory, with a given outermost module,
where all else is as it was. -/
structure Made (T : Territory) (home : Nat) (is : Interp × Store) : Prop where
  within : T.Within home [] is.1
  holds : T.Holds is.2

theorem Made.importAtCreation (h : T.Made home (i, s)) (hm : T.Known m) :
    T.Made home (Interp.importAtCreation (i, s) m) := by
  refine ⟨?_, h.holds.updateModule (h.within.app ▸ h.within.home) fun _ => .same⟩
  unfold Interp.importAtCreation
  simp only
  split
  · exact h.within
  · refine h.within.await fun k hk => ?_
    obtain hk | hk := List.mem_append.mp hk
    · exact h.within.pending k hk
    · exact List.mem_singleton.mp hk ▸ hm

theorem Made.attach (h : T.Made home (i, s)) (hm : T.Known m) :
    T.Made home (Interp.attach (i, s) m) :=
  Made.importAtCreation (i := i.register s m) ⟨h.within.register hm _, h.holds⟩ hm

theorem Made.attachAll (h : T.Made home (i, s)) {ms : List Nat} (hms : ∀ m ∈ ms, T.Known m) :
    T.Made home (ms.foldl Interp.attach (i, s)) :=
  List.foldlRecOn (motive := T.Made home) ms Interp.attach h fun _ hmade _ hm => hmade.attach (hms _ hm)

/-- What interpreters are made with: known modules, and a handler that holds no hidden variable. -/
structure Admits (T : Territory) (settings : Interp.Settings) : Prop where
  registry : ∀ e ∈ settings.registry.entries, T.Known e.2
  recovery : ∀ h ∈ settings.recovery, Handler.Avoids T.hidden h

theorem made_of_bare {settings : Interp.Settings} {isStandard : Bool} (hs : T.Holds s)
    (hr : T.Admits settings) (h : Interp.bare s settings isStandard = .ok (i, t)) :
    T.Made s.modules.size (i, t) := by
  obtain ⟨-, rfl, rfl⟩ := Interp.of_bare h
  obtain ⟨hblock, hs'⟩ := hs.addModule (x := { name := "" }) rfl rfl rfl nofun
  have happ := T.own_of_block hblock
  exact ⟨⟨rfl, happ, List.forall_mem_singleton.mpr happ, nofun, hr.registry, nofun, rfl,
    nofun, nofun, hr.recovery, fun r hr text v hv =>
      Val.avoids_of_isSerializable (Literal.isSerializable_of_standard hr hv)⟩, hs'.same⟩

theorem Made.withCore (h : T.Made home (i, s)) {is : Interp × Store}
    (hc : i.withCore s = .ok is) : T.Made home is := by
  obtain ⟨m, hm, rfl⟩ | ⟨-, m, u, hd, rfl⟩ := Interp.of_withCore hc
  · exact h.importAtCreation (h.within.registry _ (mem_of_lookup hm))
  · obtain ⟨hown, hu⟩ := h.holds.define rfl (coreModule_avoids _) hd
    exact attach ⟨h.within, hu⟩ (.inl hown)

theorem made_of_standard {settings : Interp.Settings} {ms : List Nat} (hs : T.Holds s)
    (hr : T.Admits settings) (hms : ∀ m ∈ ms, T.Known m)
    (h : Interp.standard s settings ms = .ok (i, t)) : T.Made s.modules.size (i, t) := by
  obtain ⟨i₀, s₀, i₁, s₁, hbare, hcore, hi⟩ := Interp.of_standard h
  exact hi ▸ ((made_of_bare hs hr hbare).withCore hcore).attachAll hms

/-! ## The service -/

/-- The modules of a runtime are known. -/
def Serves (T : Territory) (r : Runtime) : Prop := ∀ e ∈ r.registry.entries, T.Known e.2

variable {e : Nested} {r : Runtime}

theorem keeps_seeded (hr : T.Serves r) (stack : List Json) :
    (r.seeded stack).Keeps (T.around H) fun i => T.Within i.app [] i := by
  unfold Runtime.seeded
  refine .bind (P := fun i => T.Within i.app [] i) (.ofStore? fun hs h => ?_) fun i hi => ?_
  · unfold Runtime.interpreter at h
    have hms : ∀ m ∈ r.registry.entries.filterMap fun e =>
        if e.1 = coreName then none else some e.2, T.Known m := by
      intro m hm
      obtain ⟨e, he, hm⟩ := List.mem_filterMap.mp hm
      split at hm
      · cases hm
      · exact Option.some.inj hm ▸ hr e he
    have hmade := made_of_standard hs
      ⟨fun e he => hr e he, fun h hmem => absurd hmem (Option.not_mem_none h)⟩ hms h
    exact ⟨hmade.within.app.symm ▸ hmade.within, hmade.holds⟩
  · refine .bind (P := fun vs : List Val => ∀ v ∈ vs, v.Avoids T.hidden)
      (.lift (Wire.avoids_decodeStack _ _)) fun vs hvs => .pure ?_
    exact hi.withStack fun v hv => hvs v (List.mem_reverse.mp hv)

theorem keeps_serveWord (he : T.Confines e) (hr : T.Serves r) (request : WordRequest) :
    (r.executeWord e request).Keeps (T.around H) fun _ => True := by
  unfold Runtime.executeWord
  refine (keeps_log _ _ _).bind fun _ _ => ?_
  refine .bind (P := fun _ => True) (Task.Keeps.trivial (.attempt (P := fun _ => True) ?_))
    fun outcome _ => ?_
  · refine (keeps_seeded hr request.stack).bind fun i hi => ?_
    refine .bind (Task.Keeps.onOther (keeps_executeWord he request.word).call hi) fun p _ => ?_
    exact .lift fun _ _ => ⟨⟩
  · cases outcome with
    | ok stack => exact .pure ⟨⟩
    | error f => exact (keeps_log _ _ _).bind fun _ _ => .pure ⟨⟩

theorem keeps_runWords {busy : List Nat} (he : T.Confines e) (n : Nat) (words : List String) :
    (Runtime.runWords e n words).Keeps (T.guard home busy) fun _ => True := by
  induction words generalizing n with
  | nil => exact .pure ⟨⟩
  | cons word rest ih =>
    unfold Runtime.runWords
    refine (keeps_executeWord he word).call.attempt.bind fun outcome _ => ?_
    cases outcome with
    | ok => exact ih (n + 1)
    | error f => exact .pure ⟨⟩

theorem keeps_serveSequence (he : T.Confines e) (hr : T.Serves r) (request : SequenceRequest) :
    (r.executeSequence e request).Keeps (T.around H) fun _ => True := by
  unfold Runtime.executeSequence
  refine (keeps_log _ _ _).bind fun _ _ => ?_
  refine (keeps_seeded hr request.stack).attempt.bind fun outcome hi => ?_
  cases outcome with
  | error f => exact .pure ⟨⟩
  | ok i =>
    refine .bind (Task.Keeps.onOther (keeps_runWords he 0 request.words) (hi i rfl)) fun p _ => ?_
    obtain ⟨failure, j⟩ := p
    cases failure with
    | some w => exact .pure ⟨⟩
    | none =>
      simp only
      split
      · exact .pure ⟨⟩
      · exact .pure ⟨⟩

/-! ## Calls between runtimes -/

theorem keeps_inTime {α : Type} (p : Endpoint) (method : Method) {x : Task α}
    (hx : x.Keeps (T.around H) fun _ => True) :
    (p.inTime method x).Keeps (T.around H) fun _ => True := by
  unfold Endpoint.inTime
  refine (hx.within p.timeout).bind fun o _ => ?_
  cases o with
  | some a => exact .pure ⟨⟩
  | none => exact .pure ⟨⟩

theorem keeps_invoke (he : T.Confines e) {p : Endpoint} (hp : T.Serves p.runtime)
    (method : Method) (body : Option Json) :
    (p.invoke e method body).Keeps (T.around H) fun _ => True := by
  unfold Endpoint.invoke
  cases method with
  | executeWord =>
    refine .bind (P := fun _ => True) (.lift fun _ _ => ⟨⟩) fun request _ => ?_
    exact (keeps_inTime p _ (keeps_serveWord he hp request)).bind fun _ _ => .pure ⟨⟩
  | executeSequence =>
    refine .bind (P := fun _ => True) (.lift fun _ _ => ⟨⟩) fun request _ => ?_
    exact (keeps_inTime p _ (keeps_serveSequence he hp request)).bind fun _ _ => .pure ⟨⟩
  | listModules => exact (Task.Keeps.look _).bind fun _ _ => .pure ⟨⟩
  | getModuleInfo =>
    refine .bind (P := fun _ => True) (.lift fun _ _ => ⟨⟩) fun request _ => ?_
    refine (Task.Keeps.look _).bind fun found _ => ?_
    exact .bind (P := fun _ => True) (.lift fun _ _ => ⟨⟩) fun _ _ => .pure ⟨⟩

/-- Runtimes are found by their address among those that the store had from the beginning. -/
theorem keeps_send (he : T.Confines e) (url : String) (method : Method) (body : Json) :
    (Network.send e url method body).Keeps (T.around H) fun _ => True := by
  unfold Network.send
  refine .bind (.updateStore fun hs => hs.same) fun _ _ => ?_
  refine .bind (P := fun endpoints => ∀ p ∈ endpoints, T.Serves p.runtime)
    (.view fun _ hs p hp => T.served p (hs.endpoints ▸ hp)) fun endpoints hserved => ?_
  split
  · exact .pure ⟨⟩
  · rename_i p hp
    have hinvoke := keeps_invoke (H := H) he (hserved p (List.mem_of_find?_eq_some hp))
    have hcall : (Http.answerCall e p method.name body.sent).Keeps (T.around H) fun _ => True := by
      unfold Http.answerCall
      split
      · exact .pure ⟨⟩
      · refine (hinvoke _ _).attempt.bind fun outcome _ => ?_
        cases outcome with
        | ok x => exact .pure ⟨⟩
        | error f => exact .pure ⟨⟩
    exact hcall.bind fun _ _ => .pure ⟨⟩

/-! ## Nesting -/

/-- Nested work stays in every territory, however deep it is nested. -/
theorem confines_nested (T : Territory) (depth : Nat) : T.Confines (nested depth) := by
  induction depth with
  | zero => exact ⟨fun _ _ => .exhausted, fun _ _ _ => .exhausted⟩
  | succ depth ih => exact ⟨keeps_runSource ih, fun url method body => keeps_send ih url method body⟩

end Territory

end Wordstack
