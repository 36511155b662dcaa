import Wordstack.Proofs.Bridge.FrozenRegistry
import Wordstack.Proofs.Machine.Ends
import Wordstack.Proofs.Modules.Routes

/-!
# What names stand for in requests

Each request gets a new interpreter that imports all modules of its runtime: the core vocabulary
first, the others in the order of their registration. The latest import that exports a name gives
the word for it.

- **Modules beside others** (`exportedWord?_push`): a new module that imports others sees in them
  what they show to anybody.
- **Ready runtimes** (`Runtime.Ready`): what holds from the start of a runtime on.
- **New interpreters** (`Runtime.Fresh`): what one of a ready runtime is like.
- **Resolution** (`Runtime.Resolves`): literals first, then the latest import.
- **Requests** (`Runtime.Ready.same_executeWord`): a request to run a word is answered like one to
  run the word that its name stands for.
-/

namespace Wordstack

/-! ## Modules beside others -/

section Push

variable {modules : Array Module} {x : Module} {name : String}

/-- A module that was added last, and is barred, does not matter to what others show. -/
theorem exportedWord?_push (barred : List Nat) (i : Nat) (name : String) :
    exportedWord? (modules.push x) (barred ++ [modules.size]) i name =
      exportedWord? modules barred i name := by
  fun_induction exportedWord? modules barred i name with
  | case1 barred i name hi hb y he =>
    rename_i ih
    have hy : (modules.push x)[i]? = some modules[i] := by
      rw [Array.getElem?_push_lt hi]
    have hnot : i ∉ barred ++ [modules.size] := by
      simpa [Nat.ne_of_lt hi] using hb
    rw [exportedWord?_of_exported hy hnot he]
    congr 2
    funext imp
    cases imp.target? name with
    | none => rfl
    | some target => exact ih imp target
  | case2 barred i name hi hb y he =>
    refine exportedWord?_eq_none (.inr fun z hz => ?_)
    rw [Array.getElem?_push_lt hi] at hz
    obtain rfl := Option.some.inj hz
    simpa using he
  | case3 barred i name hi hb =>
    exact exportedWord?_of_barred (List.mem_append_left _ (by simpa using hb))
  | case4 barred i name hi =>
    by_cases hsize : i = modules.size
    · exact exportedWord?_of_barred (by simp [hsize])
    · refine exportedWord?_eq_none (.inr fun z hz => ?_)
      have hlt := (Array.getElem?_eq_some_iff.mp hz).1
      rw [Array.size_push] at hlt
      omega

/-- A module without words and variables that was added last finds a name in its latest import that
exports it. -/
theorem findIn?_push {imports : List Nat} :
    findIn? (modules.push { name := "", imports := imports.map fun m => ⟨m, ""⟩ }) modules.size
        name =
      imports.reverse.findSome? fun m => exportedWord? modules [] m name := by
  unfold findIn?
  rw [Array.getElem?_push_size]
  show importedWord? _ _ _ _ = _
  unfold importedWord?
  rw [← List.map_reverse, List.findSome?_map]
  congr 1
  funext m
  exact exportedWord?_push [] m name

theorem Array.modify_push {α : Type} (xs : Array α) (x : α) (f : α → α) :
    (xs.push x).modify xs.size f = xs.push (f x) := by
  refine Array.ext (by simp) fun n hn _ => ?_
  simp only [Array.getElem_modify, Array.getElem_push]
  rw [Array.size_modify, Array.size_push] at hn
  by_cases h : n < xs.size
  · simp [h, Nat.ne_of_gt h]
  · obtain rfl : n = xs.size := by omega
    simp

end Push

/-! ## Ready runtimes -/

namespace Runtime

/-- The zone of the interpreters of a runtime. -/
def zoneName (r : Runtime) : String := r.zone.getD "UTC"

/-- What holds of a runtime from its start on: new interpreters can be made, one of its modules is
the core vocabulary, and the sources of all of them have been run. -/
structure Ready (r : Runtime) (s : Store) : Prop where
  zone : Calendar.isZone r.zoneName = true
  core : (r.registry.get? coreName).isSome = true
  exist : ∀ m ∈ r.registry.modules, m < s.modules.size
  ready : ∀ m ∈ r.registry.modules, (s.module m).isReady = true

variable {r : Runtime} {s t : Store}

theorem Ready.mono (h : r.Ready s) (hsize : s.modules.size ≤ t.modules.size)
    (hready : ∀ m ∈ r.registry.modules, (s.module m).isReady = true →
      (t.module m).isReady = true) : r.Ready t where
  zone := h.zone
  core := h.core
  exist m hm := Nat.lt_of_lt_of_le (h.exist m hm) hsize
  ready m hm := hready m hm (h.ready m hm)

theorem Ready.of_modules_eq (h : r.Ready s) (hm : t.modules = s.modules) : r.Ready t := by
  refine h.mono (Nat.le_of_eq (by rw [hm])) fun m _ hr => ?_
  rwa [Store.module, hm]

theorem isSome_get?_of_mem {registry : Registry} {name : String} {m : Nat}
    (h : (name, m) ∈ registry.entries) : (registry.get? name).isSome = true := by
  unfold Registry.get?
  cases hl : registry.entries.lookup name with
  | some k => rfl
  | none =>
    have hne := List.lookup_eq_none_iff.mp hl _ h
    simp at hne

theorem core_of_assemble {modules : List Nat} {registry : Registry}
    (h : assemble s modules = .ok (registry, t)) : (registry.get? coreName).isSome = true := by
  obtain ⟨⟨m, hm, hname⟩, hr, rfl⟩ | ⟨-, first, hd, hr⟩ := of_assemble h
  · refine isSome_get?_of_mem (m := m) ?_
    rw [registerAll_entries hr, ← hname]
    exact List.mem_append_right _ (List.mem_map.mpr ⟨m, hm, rfl⟩)
  · obtain ⟨x, hbuild, rfl, rfl⟩ := Store.of_define hd
    refine isSome_get?_of_mem (m := s.modules.size) ?_
    have hname : (Store.module (Store.addModule
        { s with nextId := s.nextId + x.words.length } x).2 s.modules.size).name = coreName := by
      rw [Store.module_addModule, if_pos rfl, ModuleSpec.name_of_build hbuild]
      rfl
    rw [registerAll_entries hr, List.map_cons, hname]
    exact List.mem_append_right _ List.mem_cons_self

/-- A runtime that has started is ready. -/
theorem ready_of_started {depth : Nat} {modules : List Nat} {zone : Option String}
    {maxAttempts : Option Binary64} {i j : Interp} (hm : ∀ m ∈ modules, m < s.modules.size)
    (h : (start (nested depth) modules zone maxAttempts).finish i s = .ended (.ok r) j t) :
    r.Ready t := by
  obtain ⟨-, -, hready⟩ := ready_of_start hm h
  obtain ⟨registry, s₁, loader, s₂, k, s₃, hassemble, hloader, -, rfl, -⟩ := of_start h
  have hcore : (registry.get? coreName).isSome = true := core_of_assemble hassemble
  obtain ⟨i₀, s₀, i₁, s₁, hbare, -, -⟩ := Interp.of_standard hloader
  exact ⟨(Interp.of_bare hbare).1, hcore, fun m hm => (hready m hm).1, fun m hm => (hready m hm).2⟩

/-- Requests leave a runtime ready. -/
theorem Ready.serveAll {depth : Nat} (h : r.Ready s) (requests : List Request) :
    r.Ready (r.serveAll (nested depth) s requests) := by
  have hserves : (Territory.everywhere s).Serves r := fun _ _ => .inl ⟨⟩
  have hall : (Territory.everywhere s).Holds (r.serveAll (nested depth) s requests) :=
    holds_serveAll hserves (Territory.holds_everywhere s) requests
  exact h.mono hall.size fun m _ hr => hall.ready hr

/-! ## New interpreters -/

/-- The modules that a new interpreter imports, in order. -/
def imports (r : Runtime) : List Nat :=
  (r.registry.get? coreName).toList ++
    r.registry.entries.filterMap fun e => if e.1 = coreName then none else some e.2

end Runtime

/-- The store with the outermost module and the pool of a new interpreter that has imported modules
so far. -/
def Store.withApp (s : Store) (ms : List Nat) : Store :=
  { s with
    modules := s.modules.push { name := "", imports := ms.map fun m => ⟨m, ""⟩ }
    pools := s.pools.push [] }

namespace Store

variable {s : Store} {ms : List Nat} {m : Nat}

theorem module_withApp (hm : m < s.modules.size) : (s.withApp ms).module m = s.module m := by
  simp only [withApp, module, Array.getElem?_push_lt hm, Array.getElem?_eq_getElem hm]

theorem withApp_addImport (s : Store) (ms : List Nat) (m : Nat) :
    ((s.withApp ms).updateModule s.modules.size fun app => app.addImport ⟨m, ""⟩) =
      s.withApp (ms ++ [m]) := by
  unfold withApp updateModule
  simp only [Array.modify_push, List.map_append]
  rfl

end Store

namespace Runtime

/-- A new interpreter of a runtime that has imported modules so far, and its store. -/
structure Fresh (r : Runtime) (s : Store) (ms : List Nat) (is : Interp × Store) : Prop where
  new : is.1.New
  app : is.1.app = s.modules.size
  registry : is.1.registry = r.registry
  readers : is.1.readers = Literal.standard r.zoneName s.now
  pending : is.1.pending = []
  call : is.1.call = none
  store : is.2 = s.withApp ms

section Fresh

variable {r : Runtime} {i : Interp} {s t : Store} {ms : List Nat} {m : Nat}

theorem Fresh.importAtCreation (h : r.Fresh s ms (i, t)) (hm : m < s.modules.size)
    (hr : (s.module m).isReady = true) :
    r.Fresh s (ms ++ [m]) (Interp.importAtCreation (i, t) m) := by
  obtain rfl := h.store
  have happ : i.app = s.modules.size := h.app
  have hready : ((s.withApp (ms ++ [m])).module m).isReady = true := by
    rwa [Store.module_withApp hm]
  unfold Interp.importAtCreation
  simp only [happ, Store.withApp_addImport, hready, if_true]
  exact ⟨h.new, h.app, h.registry, h.readers, h.pending, h.call, rfl⟩

theorem Fresh.attach (h : r.Fresh s ms (i, t)) (hm : m < s.modules.size)
    (hr : (s.module m).isReady = true) : r.Fresh s (ms ++ [m]) (Interp.attach (i, t) m) :=
  Fresh.importAtCreation (i := i.register t m)
    ⟨h.new.prepare _ i.pending i.stack, h.app, h.registry, h.readers, h.pending, h.call, h.store⟩
    hm hr

theorem Fresh.attachAll {rest : List Nat} (h : r.Fresh s ms (i, t))
    (hm : ∀ m ∈ rest, m < s.modules.size ∧ (s.module m).isReady = true) :
    r.Fresh s (ms ++ rest) (rest.foldl Interp.attach (i, t)) := by
  induction rest generalizing ms i t with
  | nil => rwa [List.append_nil]
  | cons m rest ih =>
    obtain ⟨⟨hm, hr⟩, hrest⟩ := List.forall_mem_cons.mp hm
    rw [List.append_cons]
    exact ih (h.attach hm hr) hrest

/-- A ready runtime makes an interpreter that imports its modules. No source has to be run. -/
theorem Ready.exists_fresh (h : r.Ready s) :
    ∃ is, r.interpreter s = .ok is ∧ r.Fresh s r.imports is := by
  obtain ⟨core, hcore⟩ := Option.isSome_iff_exists.mp h.core
  have hzone : Calendar.isZone (r.zone.getD "UTC") = true := h.zone
  have hknown : ∀ m ∈ r.registry.modules, m < s.modules.size ∧ (s.module m).isReady = true :=
    fun m hm => ⟨h.exist m hm, h.ready m hm⟩
  obtain ⟨i, hbare, hfresh⟩ : ∃ i, Interp.bare s
      { registry := r.registry, zone := r.zone, maxAttempts := r.maxAttempts } true =
        .ok (i, s.withApp []) ∧ r.Fresh s [] (i, s.withApp []) :=
    ⟨_, if_pos hzone, ⟨rfl, rfl, rfl, rfl, rfl⟩, rfl, rfl, rfl, rfl, rfl, rfl⟩
  have hregistry : i.registry = r.registry := hfresh.registry
  obtain ⟨hexist, hready⟩ := hknown core (List.mem_map_of_mem (mem_of_lookup hcore))
  let others := r.registry.entries.filterMap fun e => if e.1 = coreName then none else some e.2
  have hothers : ∀ m ∈ others, m < s.modules.size ∧ (s.module m).isReady = true := by
    intro m hm
    obtain ⟨e, he, hm⟩ := List.mem_filterMap.mp hm
    split at hm
    · cases hm
    · exact hknown m (Option.some.inj hm ▸ List.mem_map_of_mem he)
  refine ⟨others.foldl Interp.attach (Interp.importAtCreation (i, s.withApp []) core), ?_, ?_⟩
  · unfold interpreter Interp.standard
    rw [hbare]
    show (do return List.foldl Interp.attach (← i.withCore _) _) = _
    rw [Interp.withCore, hregistry, hcore]
    rfl
  · rw [show r.imports = [core] ++ others by unfold imports; rw [hcore]; rfl]
    exact (hfresh.importAtCreation hexist hready).attachAll hothers

end Fresh

/-! ## Resolution -/

/-- The word of the latest import that exports a name. -/
def word? (r : Runtime) (s : Store) (name : String) : Option Word :=
  r.imports.reverse.findSome? fun m => exportedWord? s.modules [] m name

/-- The value of a text that is a literal. -/
def literal? (r : Runtime) (s : Store) (text : String) : Option Val :=
  (Literal.standard r.zoneName s.now).findSome? fun reader => reader text

/-- What a name stands for in a request: the constant of a literal, or the word of the latest
import. -/
def resolved? (r : Runtime) (s : Store) (name : String) : Option Word :=
  match r.literal? s name with
  | some v => some (.constant { name } v)
  | none => r.word? s name

section Resolution

variable {r : Runtime} {i j : Interp} {s t : Store} {name : String} {w : Word}

/-- A new interpreter finds what the name stands for in the request. -/
theorem Fresh.resolve (h : r.Fresh s r.imports (i, t)) (stack : OperandStack) :
    ({ i with stack } : Interp).resolve t name none =
      match r.resolved? s name with
      | some w => .ok w
      | none => .error (.unknownWord "" name ["app"] none) := by
  obtain rfl := h.store
  have hscope : i.scope = [s.modules.size] := h.new.scope.trans (congrArg (fun m => [m]) h.app)
  have hinputs : i.inputs = [] := h.new.inputs
  have hcall : i.call = none := h.call
  have hreaders : i.readers = Literal.standard r.zoneName s.now := h.readers
  have hname : ((s.withApp r.imports).module s.modules.size).name = "" := by
    simp [Store.withApp, Store.module]
  have hfind : findIn? (s.withApp r.imports).modules s.modules.size name = r.word? s name :=
    findIn?_push
  unfold Interp.resolve Interp.literal? resolved? literal?
  simp only [hreaders]
  cases (Literal.standard r.zoneName s.now).findSome? fun reader => reader name with
  | some v => rfl
  | none =>
    unfold Interp.findWord Interp.scopeChain Interp.topInput
    simp only [hscope, hinputs, hcall, List.findSome?_singleton, hfind]
    cases r.word? s name with
    | some w => rfl
    | none => simp [hname]

/-- The word of the latest import that exports the name, if no later one does. -/
theorem word?_of_latest {before after : List Nat} {m : Nat}
    (hm : r.imports = before ++ m :: after) (hw : exportedWord? s.modules [] m name = some w)
    (hafter : ∀ k ∈ after, exportedWord? s.modules [] k name = none) : r.word? s name = some w := by
  unfold word?
  rw [hm, List.reverse_append, List.reverse_cons, List.append_assoc, List.findSome?_append,
    List.findSome?_eq_none_iff.mpr fun k hk => hafter k (List.mem_reverse.mp hk)]
  simp [hw]

theorem resolved?_eq_of_modules (hm : t.modules = s.modules) (hn : t.now = s.now) :
    r.resolved? t name = r.resolved? s name := by
  unfold resolved? word? literal?
  rw [hm, hn]

end Resolution

/-! ## Requests -/

end Runtime

/-- Executes a word that was found already. -/
def executeFound (e : Nested) (w : Word) : Task Unit := do
  Task.call (initializePending e)
  Task.call (dispatch e w none)

/-- Executing a name is executing the word that it stands for. -/
theorem same_executeWord {e : Nested} {i : Interp} {s : Store} {name : String} {w : Word}
    (hp : i.pending = []) (hw : i.resolve s name none = .ok w) :
    Step.Same (executeWord e name i s) (executeFound e w i s) := by
  have hnone : initializePending e i s = .done (.ok ()) i s := by
    show drainPending e i.pending.length i s = _
    rw [hp]
    rfl
  have hgo : Step.Same
      (((Task.view fun i s => i.resolve s name none) >>= fun found =>
        Task.lift found >>= fun w => Task.call (dispatch e w none) : Task Unit) i s)
      (Task.call (dispatch e w none) i s) := by
    show Step.Same ((Task.lift (i.resolve s name none) >>= fun w =>
      Task.call (dispatch e w none) : Task Unit) i s) _
    rw [hw]
    exact .refl _
  show Step.Same ((Step.later (initializePending e i s)).bind _)
    ((Step.later (initializePending e i s)).bind _)
  rw [hnone]
  unfold Step.later
  split
  · exact .pause _ _ fun _ => hgo
  · exact hgo

namespace Runtime

/-- Answers a request to run a word with a task in the place of the one that finds and runs it. -/
def respondBy (r : Runtime) (request : WordRequest) (x : Task Unit) : Task StackResponse := do
  Task.log .debug logScope
    ("ExecuteWord " ++ request.word ++ " (stack depth " ++ toString request.stack.length ++ ")")
  let outcome ← Task.attempt do
    let i ← r.seeded request.stack
    let (_, i) ← Task.onOther i (Task.call x)
    Task.lift (Wire.encodeStack i.stack.toList)
  match outcome with
  | .ok stack => return ⟨stack, none⟩
  | .error f =>
    Task.log .debug logScope ("ExecuteWord " ++ request.word ++ " failed: " ++ f.errorType)
    return failed f [("word_name", request.word)]

theorem executeWord_eq (e : Nested) (r : Runtime) (request : WordRequest) :
    r.executeWord e request = r.respondBy request (Wordstack.executeWord e request.word) := rfl

theorem modules_log (s : Store) (level : LogLevel) (scope message : String) :
    (s.log level scope message).modules = s.modules ∧ (s.log level scope message).now = s.now := by
  unfold Store.log
  split
  · exact ⟨rfl, rfl⟩
  · exact ⟨rfl, rfl⟩

/-- Making the interpreter of a request takes no time. -/
theorem Ready.seeded {r : Runtime} {s : Store} (h : r.Ready s) (stack : List Json) :
    ∃ i, r.Fresh s r.imports (i, s.withApp r.imports) ∧
      ∀ k, r.seeded stack k s =
        match Wire.decodeStack "stack" (some (.arr stack)) with
        | .ok vs => .done (.ok { i with stack := .ofList vs }) k (s.withApp r.imports)
        | .error f => .done (.fault f) k (s.withApp r.imports) := by
  obtain ⟨⟨i, t⟩, hmade, hfresh⟩ := h.exists_fresh
  obtain rfl := hfresh.store
  refine ⟨i, hfresh, fun k => ?_⟩
  show Step.bind (Task.ofStore? r.interpreter k s) _ = _
  unfold Task.ofStore?
  rw [hmade]
  show Step.bind (Task.lift (Wire.decodeStack "stack" (some (.arr stack))) k _) _ = _
  cases Wire.decodeStack "stack" (some (.arr stack)) with
  | ok vs => rfl
  | error f => rfl

/-- A request to run a word is answered by the word that its name stands for. -/
theorem Ready.same_executeWord {r : Runtime} {s : Store} {e : Nested} {name : String} {w : Word}
    (h : r.Ready s) (hw : r.resolved? s name = some w) (stack : List Json) (k : Interp) :
    Step.Same (r.executeWord e ⟨name, stack⟩ k s)
      (r.respondBy ⟨name, stack⟩ (executeFound e w) k s) := by
  rw [executeWord_eq]
  let message := "ExecuteWord " ++ name ++ " (stack depth " ++ toString stack.length ++ ")"
  let u := s.log .debug logScope message
  obtain ⟨hmodules, hnow⟩ := modules_log s .debug logScope message
  obtain ⟨i, hfresh, hseeded⟩ := (h.of_modules_eq hmodules).seeded stack
  refine Step.Same.bind (Step.Same.attempt ?_) fun _ _ _ => .refl _
  show Step.Same ((r.seeded stack k u).bind _) ((r.seeded stack k u).bind _)
  rw [hseeded]
  cases Wire.decodeStack "stack" (some (.arr stack)) with
  | error f => exact .refl _
  | ok vs =>
    refine Step.Same.bind (Step.Same.restoring (Step.Same.later ?_) k) fun _ _ _ => .refl _
    refine Wordstack.same_executeWord hfresh.pending ?_
    rw [hfresh.resolve, resolved?_eq_of_modules hmodules hnow, hw]

end Runtime

end Wordstack
