import Wordstack.Proofs.Bridge.CodeProperty
import Wordstack.Proofs.Machine.Calls

/-!
# Registered modules are not changed by requests

All modules of a runtime are ready when it has started, so no request brings one of them into scope
again: the modules that requests change are those that they have made themselves.

- **Registries** (`Runtime.of_assemble`): the given modules in order, behind a core vocabulary.
- **Starting** (`Runtime.ready_of_start`): every registered module has been initialized, and no
  other one has become unready.
- **Requests** (`Runtime.Request`, `Runtime.serveAll`): one after the other, whatever becomes of
  each.
- **The result** (`requests_keep_registered_modules`): one request leaves the modules that were
  there when the runtime had started as they are (`Runtime.holds_serve`), and so do all.
-/

namespace Wordstack

/-! ## Ends of tasks on other interpreters -/

section Ends

variable {α : Type} {i j : Interp} {s t : Store}

theorem Step.of_restoring {x : Step α} {a : α} {k : Interp}
    (h : (x.restoring i).finish = .ended (.ok (a, k)) j t) : x.finish = .ended (.ok a) k t := by
  induction x with
  | done r l u =>
    cases r <;> cases h
    rfl
  | pause w u resume ih =>
    simp only [Step.restoring, Step.finish] at h ⊢
    split at h
    · rename_i hw
      rw [if_pos hw]
      exact ih _ _ h
    · rename_i hw
      rw [if_neg hw]
      split at h
      · rename_i hd
        rw [if_pos hd]
        exact ih _ _ h
      · cases h

theorem Task.of_onOther {x : Task α} {other k : Interp} {a : α}
    (h : (Task.onOther other x).finish i s = .ended (.ok (a, k)) j t) :
    x.finish other s = .ended (.ok a) k t :=
  Step.of_restoring h

/-- A fault on another interpreter is that of the task there. -/
theorem Step.of_restoring_fault {x : Step α} {f : Fault}
    (h : (x.restoring i).finish = .ended (.fault f) j t) :
    ∃ k, x.finish = .ended (.fault f) k t := by
  induction x with
  | done r l u =>
    cases r <;> cases h
    exact ⟨l, rfl⟩
  | pause w u resume ih =>
    simp only [Step.restoring, Step.finish] at h ⊢
    split at h
    · rename_i hw
      rw [if_pos hw]
      exact ih _ _ h
    · rename_i hw
      rw [if_neg hw]
      split at h
      · rename_i hd
        rw [if_pos hd]
        exact ih _ _ h
      · cases h

theorem Task.of_onOther_fault {x : Task α} {other : Interp} {f : Fault}
    (h : (Task.onOther other x).finish i s = .ended (.fault f) j t) :
    ∃ k, x.finish other s = .ended (.fault f) k t :=
  Step.of_restoring_fault h

theorem Task.of_ofStore? {f : Store → Except Fault (α × Store)} {a : α}
    (h : (Task.ofStore? f).finish i s = .ended (.ok a) j t) : f s = .ok (a, t) := by
  unfold Task.finish Task.ofStore? at h
  split at h
  · rename_i hf
    cases h
    exact hf
  · cases h

theorem Task.of_settle {x : Task α} {a : α} (h : (x.settle i s).1 = .ok a) :
    x.finish i s = .ended (.ok a) (x.settle i s).2.1 (x.settle i s).2.2 := by
  unfold Task.settle at h ⊢
  split at h <;> simp_all

end Ends

/-! ## Starting -/

theorem Registry.entries_of_register {r r' : Registry} {name : String} {m : Nat}
    (h : r.register name m = .ok r') : r'.entries = r.entries ++ [(name, m)] := by
  unfold register at h
  split at h
  · cases h
  split at h
  · cases h
  · rw [← Except.ok.inj h]

namespace Runtime

variable {depth m : Nat} {i j : Interp} {s t : Store}

/-- A module that exists is ready once it has been initialized without a fault. -/
theorem ready_of_initializeModule (hi : i.initializing = []) (hm : m < s.modules.size)
    (h : (initializeModule (nested depth) m).finish i s = .ended (.ok ()) j t) :
    (t.module m).isReady = true := by
  by_cases hskip : ((s.module m).isReady || i.initializing.contains m) = true
  · rw [finish_initializeModule_skipped hskip] at h
    cases h
    simpa [hi] using hskip
  · rw [finish_initializeModule (by simpa using hskip)] at h
    rcases Outcome.of_attempt_bind h Result.ok_ne_exhausted with
      ⟨_, k, u, hrun, h⟩ | ⟨f, k, u, hrun, h⟩
    · cases h
      have hT := Territory.confines_nested (.everywhere s) depth
      have hin : (Territory.everywhere s).Within i.app [m] (i.enterModule m) :=
        (Territory.within_everywhere s hi).enterModule ⟨⟩
      obtain ⟨-, -, hu⟩ := (hT.run _ _).of_ok hin (Territory.holds_everywhere s) hrun
      rw [Store.module_updateModule, if_pos ⟨rfl, Nat.lt_of_lt_of_le hm hu.size⟩]
    · cases h

theorem keeps_initializeAll {T : Territory} {home : Nat} {e : Nested} (he : T.Confines e) {ms : List Nat}
    (hms : ∀ m ∈ ms, T.Known m) :
    (initializeAll e ms).Keeps (T.guard home []) fun _ => True := by
  induction ms with
  | nil => exact .pure ⟨⟩
  | cons m ms ih =>
    obtain ⟨hm, hms⟩ := List.forall_mem_cons.mp hms
    exact (T.keeps_initializeModule he hm).bind fun _ _ => ih hms

/-- What the initialization of modules leaves: the modules that were ready still are. -/
theorem holds_initializeAll {ms : List Nat} (hi : i.initializing = [])
    (h : (initializeAll (nested depth) ms).finish i s = .ended (.ok ()) j t) :
    (Territory.everywhere s).Holds t := by
  have hT := Territory.confines_nested (.everywhere s) depth
  exact ((keeps_initializeAll hT fun _ _ => .inl ⟨⟩).of_ok (Territory.within_everywhere s hi)
    (Territory.holds_everywhere s) h).2.2

theorem ready_of_initializeAll {ms : List Nat} (hi : i.initializing = [])
    (hms : ∀ m ∈ ms, m < s.modules.size)
    (h : (initializeAll (nested depth) ms).finish i s = .ended (.ok ()) j t) :
    ∀ m ∈ ms, (t.module m).isReady = true := by
  induction ms generalizing i s with
  | nil => nofun
  | cons m ms ih =>
    obtain ⟨hm, hms⟩ := List.forall_mem_cons.mp hms
    unfold initializeAll at h
    rw [Task.finish_bind] at h
    obtain ⟨_, k, u, hx, h⟩ := Outcome.of_bind_ok h
    have hT := Territory.confines_nested (.everywhere s) depth
    obtain ⟨-, hk, hu⟩ := (Territory.keeps_initializeModule hT (.inl ⟨⟩)).of_ok
      (Territory.within_everywhere s hi) (Territory.holds_everywhere s) hx
    refine List.forall_mem_cons.mpr ⟨?_, ?_⟩
    · exact (holds_initializeAll hk.initializing h).ready (ready_of_initializeModule hi hm hx)
    · exact ih hk.initializing (fun m hm => Nat.lt_of_lt_of_le (hms m hm) hu.size) h

/-- Registration keeps the order, and every module is registered under its own name. -/
theorem registerAll_entries {r r' : Registry} {ms : List Nat} (h : registerAll s r ms = .ok r') :
    r'.entries = r.entries ++ ms.map fun m => ((s.module m).name, m) := by
  induction ms generalizing r with
  | nil =>
    obtain rfl := Except.ok.inj h
    exact (List.append_nil _).symm
  | cons m ms ih =>
    obtain ⟨r₁, hr, h⟩ := Except.of_bind_ok h
    rw [ih h, Registry.entries_of_register hr, List.append_assoc]
    rfl

theorem registerAll_modules {r r' : Registry} {ms : List Nat} (h : registerAll s r ms = .ok r') :
    r'.modules = r.modules ++ ms := by
  simp [Registry.modules, registerAll_entries h, Function.comp_def]

/-- A registry is that of the given modules, if one of them is a core vocabulary. If not, a new core
vocabulary comes first. -/
theorem of_assemble {modules : List Nat} {registry : Registry}
    (h : assemble s modules = .ok (registry, t)) :
    ((∃ m ∈ modules, (s.module m).name = coreName) ∧ registerAll s {} modules = .ok registry ∧
        t = s) ∨
      (∀ m ∈ modules, (s.module m).name ≠ coreName) ∧ ∃ first,
        s.define coreModule = .ok (first, t) ∧ registerAll t {} (first :: modules) = .ok registry := by
  unfold assemble at h
  split at h
  · rename_i hany
    obtain ⟨m, hm, hname⟩ := List.any_eq_true.mp hany
    obtain ⟨r, hr, h⟩ := Except.of_bind_ok h
    obtain ⟨rfl, rfl⟩ := Prod.mk.inj (Except.ok.inj h)
    exact .inl ⟨⟨m, hm, beq_iff_eq.mp hname⟩, hr, rfl⟩
  · rename_i hany
    obtain ⟨⟨first, u⟩, hdefine, h⟩ := Except.of_bind_ok h
    obtain ⟨r, hr, h⟩ := Except.of_bind_ok h
    obtain ⟨rfl, rfl⟩ := Prod.mk.inj (Except.ok.inj h)
    refine .inr ⟨fun m hm hname => hany ?_, first, hdefine, hr⟩
    exact List.any_eq_true.mpr ⟨m, hm, beq_iff_eq.mpr hname⟩

/-- The modules of a registry that was assembled exist, and modules that were ready still are. -/
theorem exists_of_assemble {modules : List Nat} {registry : Registry}
    (hm : ∀ m ∈ modules, m < s.modules.size) (h : assemble s modules = .ok (registry, t)) :
    (Territory.everywhere s).Holds t ∧ ∀ m ∈ registry.modules, m < t.modules.size := by
  obtain ⟨-, hr, rfl⟩ | ⟨-, first, hd, hr⟩ := of_assemble h
  · exact ⟨Territory.holds_base _, by rwa [registerAll_modules hr]⟩
  · refine ⟨((Territory.holds_everywhere s).define rfl (coreModule_avoids _) hd).2, ?_⟩
    obtain ⟨x, -, rfl, rfl⟩ := Store.of_define hd
    have hsize : ∀ m, m < s.modules.size + 1 → m < (s.modules.push x).size := fun m h => by
      rwa [Array.size_push]
    rw [registerAll_modules hr]
    exact List.forall_mem_cons.mpr ⟨hsize _ (Nat.lt_succ_self _),
      fun m hmem => hsize m (Nat.lt_succ_of_lt (hm m hmem))⟩

/-- Log lines are all that is written between the initialization and the end of starting. -/
theorem keeps_warnAll {G : Guard} (hG : ∀ {s : Store} (level : LogLevel) (scope message : String),
    G.store s → G.store (s.log level scope message)) (problems : List String) :
    (warnAll problems).Keeps G fun _ => True := by
  induction problems with
  | nil => exact .pure ⟨⟩
  | cons problem rest ih => exact .bind (.updateStore fun hs => hG _ _ _ hs) fun _ _ => ih

/-- Starting assembles a registry, makes an interpreter, and initializes the modules on that. After
this it writes to the console only. -/
theorem of_start {e : Nested} {modules : List Nat} {zone : Option String}
    {maxAttempts : Option Binary64} {r : Runtime}
    (h : (start e modules zone maxAttempts).finish i s = .ended (.ok r) j t) :
    ∃ registry s₁ loader s₂ k s₃, assemble s modules = .ok (registry, s₁) ∧
      Interp.standard s₁ { registry, zone } [] = .ok (loader, s₂) ∧
      (initializeAll e registry.modules).finish loader s₂ = .ended (.ok ()) k s₃ ∧
      r = { registry := registry.freeze, zone, maxAttempts } ∧
        ∀ T : Territory, T.Holds s₃ → T.Holds t := by
  unfold start at h
  rw [Task.finish_bind] at h
  obtain ⟨registry, i₁, s₁, hassemble, h⟩ := Outcome.of_bind_ok h
  rw [Task.finish_bind] at h
  obtain ⟨loader, i₂, s₂, hloader, h⟩ := Outcome.of_bind_ok h
  rw [Task.finish_bind] at h
  obtain ⟨⟨_, k⟩, i₃, s₃, hall, h⟩ := Outcome.of_bind_ok h
  have hassemble := Task.of_ofStore? hassemble
  have hrest : ∀ T : Territory, T.Holds s₃ →
      r = { registry := registry.freeze, zone, maxAttempts } ∧ T.Holds t := by
    intro T hs₃
    obtain ⟨rfl, -, ht⟩ := Task.Keeps.of_ok (G := T.around fun _ => True)
      ((Task.Keeps.look _).bind fun problems _ =>
        (keeps_warnAll (G := T.around fun _ => True)
          (fun _ _ _ hs => Territory.Holds.log hs _ _ _) problems).bind fun _ _ =>
            (Territory.keeps_log _ _ _).bind fun _ _ => .pure rfl) ⟨⟩ hs₃ h
    exact ⟨rfl, ht⟩
  exact ⟨registry, s₁, loader, s₂, k, s₃, hassemble, Task.of_ofStore? hloader, Task.of_onOther hall,
    (hrest _ (Territory.holds_everywhere s₃)).1, fun T hs₃ => (hrest T hs₃).2⟩

/-- When a runtime has started its registry is frozen and all its modules are ready. Other modules
that were ready still are. -/
theorem ready_of_start {modules : List Nat} {zone : Option String} {maxAttempts : Option Binary64}
    {r : Runtime} (hm : ∀ m ∈ modules, m < s.modules.size)
    (h : (start (nested depth) modules zone maxAttempts).finish i s = .ended (.ok r) j t) :
    r.registry.frozen = true ∧ (Territory.everywhere s).Holds t ∧
      ∀ m ∈ r.registry.modules, m < t.modules.size ∧ (t.module m).isReady = true := by
  obtain ⟨registry, s₁, loader, s₂, k, s₃, hassemble, hloader, hall, rfl, hrest⟩ := of_start h
  obtain ⟨hs₁, hexist⟩ := exists_of_assemble hm hassemble
  have hmade := Territory.made_of_standard (Territory.everywhere s₁).holds_base
    ⟨fun _ _ => .inl ⟨⟩, fun handler _ => handler.avoids_of_none fun _ => id⟩ (fun _ _ => .inl ⟨⟩)
    hloader
  have hs₃ := holds_initializeAll hmade.within.initializing hall
  have hready := ready_of_initializeAll hmade.within.initializing
    (fun m hm => Nat.lt_of_lt_of_le (hexist m hm) hmade.holds.size) hall
  have ht := hrest _ (Territory.holds_everywhere s₃)
  refine ⟨rfl, hs₁.trans (hmade.holds.trans (hs₃.trans ht)), fun m hm => ⟨?_, ht.ready (hready m hm)⟩⟩
  exact Nat.lt_of_lt_of_le (hexist m hm) (hmade.holds.trans (hs₃.trans ht)).size

/-! ## Requests -/

/-- What a runtime can be asked. -/
inductive Request where
  | word (request : WordRequest)
  | sequence (request : SequenceRequest)
  | modules
  | info (name : String)

/-- Serves a request; the response does not matter here. -/
def Request.task (e : Nested) (r : Runtime) : Request → Task Unit
  | word request => do
    let _ ← r.executeWord e request
  | sequence request => do
    let _ ← r.executeSequence e request
  | modules => do
    let _ ← Task.view fun _ s => r.listModules s
  | info name => do
    let _ ← Task.view fun _ s => r.moduleInfo s name

/-- The store after a request, whatever has become of it. -/
def serve (e : Nested) (r : Runtime) (s : Store) (request : Request) : Store :=
  ((request.task e r).settle .host s).2.2

/-- The store after requests that were served one after the other. -/
def serveAll (e : Nested) (r : Runtime) (s : Store) (requests : List Request) : Store :=
  requests.foldl (serve e r) s

variable {T : Territory} {r : Runtime}

/-- A request stays in every territory in which the modules of the runtime are known. -/
theorem holds_serve (hr : T.Serves r) (hs : T.Holds s) (request : Request) :
    T.Holds (serve (nested depth) r s request) := by
  have he := T.confines_nested depth
  refine Task.Keeps.settle (G := T.around fun _ => True) (P := fun _ => True) ?_ ⟨⟩ hs
  cases request with
  | word request => exact (T.keeps_serveWord he hr request).bind fun _ _ => .pure ⟨⟩
  | sequence request => exact (T.keeps_serveSequence he hr request).bind fun _ _ => .pure ⟨⟩
  | modules => exact .bind (.look _) fun _ _ => .pure ⟨⟩
  | info name => exact .bind (.look _) fun _ _ => .pure ⟨⟩

theorem holds_serveAll (hr : T.Serves r) (hs : T.Holds s) (requests : List Request) :
    T.Holds (serveAll (nested depth) r s requests) := by
  induction requests generalizing s with
  | nil => exact hs
  | cons request rest ih => exact ih (holds_serve hr hs request)

end Runtime

/-- The modules of a runtime are ready. -/
def Store.Serves (s : Store) (r : Runtime) : Prop :=
  ∀ m ∈ r.registry.modules, (s.module m).isReady = true

/-- The territory of code that starts in a store: what is new. -/
def Territory.beside (s : Store) (h : ∀ p ∈ s.endpoints, s.Serves p.runtime) : Territory :=
  visible s (fun m => s.modules.size ≤ m) (fun m => s.modules.size ≤ m) id id
    (fun hm => by
      rw [Store.module_of_size_le hm]
      nofun)
    fun p hp e he => .inr (h p hp e.2 (List.mem_map_of_mem he))

/-- From the time when a runtime has started, its registry is frozen, and no requests change a
registered module: its words and exports, its imports and blocks, the names and cells of its
variables, and that it is ready, are as they were then. -/
theorem requests_keep_registered_modules {depth : Nat} {modules : List Nat}
    {zone : Option String} {maxAttempts : Option Binary64} {i j : Interp} {s t : Store} {r : Runtime}
    (hmodules : ∀ m ∈ modules, m < s.modules.size)
    (hserved : ∀ p ∈ s.endpoints, s.Serves p.runtime)
    (h : (Runtime.start (nested depth) modules zone maxAttempts).finish i s = .ended (.ok r) j t)
    (requests : List Runtime.Request) :
    r.registry.frozen = true ∧ ∀ m ∈ r.registry.modules,
      (t.module m).isReady = true ∧
        (r.serveAll (nested depth) t requests).module m = t.module m := by
  obtain ⟨hfrozen, ht, hready⟩ := Runtime.ready_of_start hmodules h
  have hbeside : ∀ p ∈ t.endpoints, t.Serves p.runtime :=
    fun p hp m hm => ht.ready (hserved p (ht.endpoints ▸ hp) m hm)
  let T := Territory.beside t hbeside
  have hserves : T.Serves r := fun e he => .inr (hready e.2 (List.mem_map_of_mem he)).2
  have hall : T.Holds (r.serveAll (nested depth) t requests) :=
    Runtime.holds_serveAll hserves T.holds_base requests
  exact ⟨hfrozen, fun m hm => ⟨(hready m hm).2, hall.kept (Nat.not_le.mpr (hready m hm).1)⟩⟩

/-- A runtime of a module whose source defines a word and opens a block: the module has both of them
after all requests. -/
theorem requests_keep_registered_modules_source :
    ∃ r j t, (Runtime.start (nested 2) [0, 1] (some "+00:00") none).finish .host
        (.emptyCore [.new "m" "" ": A 1 ; \x7bb : B 2 ; \x7d" true]) = .ended (.ok r) j t ∧
      ∀ requests, let m := (r.serveAll (nested 2) t requests).module 1
        m.words.map Word.name = ["A"] ∧ m.children.map Prod.fst = ["b"] := by
  let x := Runtime.start (nested 2) [0, 1] (some "+00:00") none
  let s := Store.emptyCore [.new "m" "" ": A 1 ; \x7bb : B 2 ; \x7d" true]
  have hstart : ((x.settle .host s).1.toOption.any fun r => r.registry.modules == [0, 1]) = true := by
    decide +kernel
  have hmodule : ((x.settle .host s).2.2.module 1).words.map Word.name = ["A"] ∧
      ((x.settle .host s).2.2.module 1).children.map Prod.fst = ["b"] := by decide +kernel
  obtain ⟨r, hr, hmodules⟩ := Except.exists_of_any hstart
  refine ⟨r, _, _, Task.of_settle hr, fun requests => ?_⟩
  have hkeep := requests_keep_registered_modules (by decide)
    (fun p hp => absurd hp List.not_mem_nil) (Task.of_settle hr) requests
  show List.map _ (Store.module _ 1).words = _ ∧ List.map _ (Store.module _ 1).children = _
  rw [(hkeep.2 1 (by rw [beq_iff_eq.mp hmodules]; decide)).2]
  exact hmodule

end Wordstack
