import Wordstack.Proofs.Machine.CoupledStacks
import Wordstack.Proofs.Machine.Twins
import Wordstack.Proofs.Vocabulary.Avoiding

/-!
# The same done twice

What is done over one library ends in the same way in twin runs, but for identities.

- **Interpreters** (`Twins.Interps`): the same but for identities. All modules that they can find
  are ready, so no source is run, and only new modules are in scope.
- **Nested work** (`Twins.Runs`).
- **Queries** (`Twins.coupled_answer`), **words** (`Twins.coupled_execute`) and **runs**
  (`Twins.coupled_runSource`): one lemma for each task, in the order of the definitions.
-/

namespace Wordstack

namespace Twins

variable {T : Twins} {i j : Interp} {s t : Store} {m n : Nat}

/-! ## Interpreters -/

/-- Open definitions that are the same but for identities. -/
structure Definitions (T : Twins) (d d' : OpenDefinition) : Prop where
  name : d.name = d'.name
  location : d.location = d'.location
  body : Word.BodyPaired T.pairing d.body d'.body

/-- Interpreters that are the same but for identities. -/
structure Interps (T : Twins) (i j : Interp) : Prop where
  recovery : i.recovery = none ∧ j.recovery = none
  registry : List.Forall₂ (Named T.Found) i.registry.entries j.registry.entries
  registered : List.Forall₂ (Named T.Found) i.registered j.registered
  app : T.Made i.app j.app
  scope : List.Forall₂ T.Made i.scope j.scope
  readers : i.readers = j.readers
  literals : ∀ r ∈ i.readers, ∀ text v, r text = some v → v.isSerializable = true
  stack : Val.AllPaired T.pairing i.stack.values j.stack.values
  profile : i.profile = j.profile
  inputs : i.inputs = j.inputs
  previous : i.previous = j.previous
  call : i.call = j.call
  compiling : i.compiling = j.compiling
  memoDefinition : i.memoDefinition = j.memoDefinition
  definition : Option.Rel T.Definitions i.definition j.definition
  marks : i.marks = j.marks
  pending : i.pending = [] ∧ j.pending = []
  pool : T.Pools i.pool j.pool

/-- What is to hold between the two runs. -/
def coupling (T : Twins) : Coupling := ⟨T.Interps, T.Stores⟩

/-- Tasks that end in the same way in twin runs. -/
abbrev Tasks (T : Twins) {α β : Type} (R : α → β → Prop) (x : Task α) (y : Task β) : Prop :=
  x.Coupled T.coupling R y

namespace Interps

theorem topInput_eq (h : T.Interps i j) : i.topInput = j.topInput := by
  rw [Interp.topInput, Interp.topInput, h.inputs]

theorem current? (h : T.Interps i j) : Option.Rel T.Made i.current? j.current? := by
  have hscope := h.scope
  unfold Interp.current?
  generalize i.scope = a, j.scope = b at hscope
  cases hscope with
  | nil => exact .none
  | cons hmn => exact .some hmn

theorem withStack (h : T.Interps i j) {stack stack' : OperandStack}
    (hv : Val.AllPaired T.pairing stack.values stack'.values) :
    T.Interps { i with stack } { j with stack := stack' } :=
  { h with stack := hv }

theorem enter (h : T.Interps i j) (hmn : T.Made m n) :
    T.Interps { i with scope := m :: i.scope } { j with scope := n :: j.scope } :=
  { h with scope := .cons hmn h.scope }

theorem leave (h : T.Interps i j) :
    T.Interps { i with scope := i.scope.tail } { j with scope := j.scope.tail } := by
  refine { h with scope := ?_ }
  have hscope := h.scope
  show List.Forall₂ T.Made i.scope.tail j.scope.tail
  generalize i.scope = a, j.scope = b at hscope
  cases hscope with
  | nil => exact .nil
  | cons _ hrest => exact hrest

theorem scopeChain_eq (h : T.Interps i j) (hs : T.Stores s t) : i.scopeChain s = j.scopeChain t := by
  unfold Interp.scopeChain
  have hscope := h.scope
  generalize i.scope = a, j.scope = b at hscope
  induction hscope with
  | nil => rfl
  | cons hmn _ ih => rw [List.map_cons, List.map_cons, ih, hs.name_eq hmn.known]

/-- A name stands for the same but for identities, or is unknown on both sides. -/
theorem findWord (h : T.Interps i j) (hs : T.Stores s t) (name : String) (l : Option Location) :
    ExceptPaired (Word.Paired T.pairing) (i.findWord s name l) (j.findWord t name l) := by
  have hfound : Option.Rel (Word.Paired T.pairing)
      (i.scope.findSome? fun m => findIn? s.modules m name)
      (j.scope.findSome? fun m => findIn? t.modules m name) :=
    findSome?_paired h.scope fun _ _ hmn => findIn?_paired hs.modulesPaired hmn.known name
  unfold Interp.findWord
  rw [h.topInput_eq, h.scopeChain_eq hs, h.call]
  generalize i.scope.findSome? _ = a, j.scope.findSome? _ = b at hfound
  cases hfound with
  | none => exact .error _
  | some hw => exact .ok hw

theorem resolve (h : T.Interps i j) (hs : T.Stores s t) (text : String) (l : Option Location) :
    ExceptPaired (Word.Paired T.pairing) (i.resolve s text l) (j.resolve t text l) := by
  have hliteral : i.literal? text = j.literal? text := by
    rw [Interp.literal?, Interp.literal?, h.readers]
  unfold Interp.resolve
  rw [← hliteral]
  cases hv : i.literal? text with
  | none => exact h.findWord hs text l
  | some v =>
    obtain ⟨r, hr, hread⟩ := List.exists_of_findSome?_eq_some hv
    exact .ok (.constant (WordLabel.paired_of_none rfl) (.self (h.literals r hr text v hread)))

theorem findModule (h : T.Interps i j) (name : String) :
    ExceptPaired T.Found (i.findModule name) (j.findModule name) := by
  have hfound := or_paired (Named.lookup h.registered name) (Named.lookup h.registry name)
  unfold Interp.findModule Registry.get?
  rw [h.topInput_eq, h.call]
  generalize (i.registered.lookup name).or _ = a, (j.registered.lookup name).or _ = b at hfound
  cases hfound with
  | none => exact .error _
  | some hmn => exact .ok hmn

end Interps

/-! ## Primitive tasks -/

/-- Stacks, brackets and places are no matter of the library. -/
theorem onStacks (T : Twins) : T.coupling.OnStacks T.pairing where
  stack h := h.stack
  marks h := h.marks
  call h := h.call
  topInput h := h.topInput_eq
  withStack h hstack := h.withStack hstack
  withMarks _ h := { h with marks := rfl }
  dispatching _ h hprofiled hname :=
    { h with
      profile := by
        unfold Interp.dispatching
        rw [hprofiled, hname, h.profile]
      call := rfl }
  log level scope message h := h.log level scope message
  print line h := h.print line

theorem coupled_current (operation : String) :
    T.Tasks T.Made (Task.current operation) (Task.current operation) := by
  refine ⟨fun {i j s t} hi hs => ?_⟩
  have hcurrent := hi.current?
  unfold Task.finish Task.current
  generalize i.current? = a, j.current? = b at hcurrent
  cases hcurrent with
  | none => exact .fault _ hi hs
  | some hmn => exact .ok hmn hi hs

theorem coupled_updateCurrent (operation : String) {f g : Module → Module}
    (hfg : ∀ {x y}, T.NewModules x y → T.NewModules (f x) (g y)) :
    T.Tasks (· = ·) (Task.updateCurrent operation f) (Task.updateCurrent operation g) :=
  (coupled_current operation).bind fun _ _ hmn => .updateStore fun hs => hs.updateModule hmn hfg

theorem coupled_findModule (hi : T.Interps i j) (name : String) :
    T.Tasks T.Found (Task.lift (i.findModule name)) (Task.lift (j.findModule name)) :=
  .lift (hi.findModule name)

/-- What a text stands for is the same but for identities. -/
theorem coupled_resolve (text : String) (l : Option Location) :
    T.Tasks (ExceptPaired (Word.Paired T.pairing)) (Task.view fun i s => i.resolve s text l)
      (Task.view fun i s => i.resolve s text l) :=
  .view fun hi hs => hi.resolve hs text l

/-! ## Nested work -/

/-- Nested work that ends in the same way in twin runs. -/
structure Runs (T : Twins) (e : Nested) : Prop where
  run : ∀ source origin, T.Tasks (· = ·) (e.run source origin) (e.run source origin)

variable {e : Nested}

/-! ## Modules -/

/-- A module that can be found by name is ready, so there is nothing to do. -/
theorem coupled_initializeModule (hmn : T.Found m n) :
    T.Tasks (· = ·) (initializeModule e m) (initializeModule e n) := by
  refine ⟨fun {i j s t} hi hs => ?_⟩
  obtain ⟨hm, hn⟩ := hs.ready hmn
  rw [finish_initializeModule_skipped (by rw [hm]; rfl),
    finish_initializeModule_skipped (by rw [hn]; rfl)]
  exact .ok rfl hi hs

theorem coupled_useModules (imports : List (String × String)) :
    T.Tasks (· = ·) (useModules e imports) (useModules e imports) := by
  induction imports with
  | nil => exact .pure rfl
  | cons imp rest ih =>
    obtain ⟨name, qualifier⟩ := imp
    unfold useModules
    refine Task.Coupled.interp.bind fun i j hi => (coupled_findModule hi name).bind fun m n hmn => ?_
    refine (coupled_initializeModule hmn).call.bind fun _ _ _ => ?_
    refine (coupled_updateCurrent _ fun hxy => ?_).bind fun _ _ _ => ih
    exact { hxy with toPaired := hxy.toPaired.addImport ⟨hmn.known, rfl⟩ }

/-! ## Native code -/

theorem coupled_fresh :
    T.Tasks T.pairing.id (Task.ofStore Store.freshId) (Task.ofStore Store.freshId) :=
  .ofStore fun hs => hs.freshId

/-- Changes of the profile are the same on both sides. -/
theorem coupled_profile (f : Profile → Profile) :
    T.Tasks (· = ·) (Task.update fun i => { i with profile := f i.profile })
      (Task.update fun i => { i with profile := f i.profile }) :=
  .update fun hi => { hi with profile := congrArg f hi.profile }

theorem coupled_answer (he : T.Runs e) {q q' : Query} {S : q.Reply → q'.Reply → Prop}
    (hq : Query.Paired T.pairing q q' S) : T.Tasks S (answer e q) (answer e q') := by
  cases hq with
  | push h => exact T.onStacks.answer e (.push h) rfl
  | setStack h => exact T.onStacks.answer e (.setStack h) rfl
  | fetch h => exact .view fun _ hs => hs.fetch h
  | store hc hv => exact (Task.Coupled.updateStore (C := T.coupling) fun hs => hs.put hc hv).mono fun _ _ _ => ⟨⟩
  | plain hplain =>
    cases q with
    | push | setStack | fetch | store | useRemote => cases hplain
    | pop | peek | popN _ | top | stack | callLocation | topInput | print _ | turn | never =>
      exact T.onStacks.answer e (.plain hplain) rfl
    | run source => exact (he.run source _).call
    | attempt source =>
      refine (he.run source _).call.attempt.bind fun outcome outcome' h => ?_
      cases h with
      | ok => exact .pure rfl
      | error f => exact .pure rfl
    | findWord name =>
      refine (Task.Coupled.view (C := T.coupling) fun hi hs => hi.findWord hs name none).bind
        fun found found' h => ?_
      refine (Task.Coupled.lift h).bind fun v w hw => ?_
      have hid := hw.label.id
      rw [hw.name_eq]
      generalize v.label.id = a, w.label.id = b at hid
      cases hid with
      | some hid => exact .pure ⟨hid, rfl⟩
      | none => exact coupled_fresh.bind fun _ _ hid => .pure ⟨hid, rfl⟩
    | findModule name =>
      refine Task.Coupled.interp.bind fun i j hi => (coupled_findModule hi name).bind fun m n hmn => ?_
      refine Task.Coupled.bind (R := (· = ·)) (.view fun _ hs => hs.name_eq hmn.known)
        fun name _ e => e ▸ .pure ⟨hmn.known, rfl⟩
    | variableNamed name =>
      refine (coupled_current _).bind fun m n hmn => ?_
      exact .bind (.ofStore fun hs => hs.variableCell hmn name) fun _ _ hcell => .pure ⟨hcell, rfl⟩
    | requireScope operation => exact (coupled_current operation).bind fun _ _ _ => .pure rfl
    | exportNames names =>
      exact coupled_updateCurrent _ fun hxy =>
        { hxy with toPaired := hxy.toPaired.addExports names }
    | useModules imports => exact (coupled_useModules imports).call
    | startProfile => exact coupled_profile Profile.start
    | stopProfile => exact coupled_profile Profile.stop
    | stamp label =>
      exact (Task.Coupled.ofStore (C := T.coupling) fun hs => hs.readClock).bind fun time _ h =>
        h ▸ coupled_profile (·.stamp label time)
    | profile =>
      refine .view fun {i j _ _} hi _ => ?_
      rw [hi.profile]
      exact .self j.profile.isSerializable_toRecord
    | fresh => exact coupled_fresh
    | connect pool name address =>
      obtain rfl := of_decide_eq_true hplain
      exact ⟨fun hi hs => .ok rfl hi (hs.connect hi.pool name address clientTimeout)⟩
    | disconnect pool name =>
      obtain rfl := of_decide_eq_true hplain
      exact ⟨fun hi hs => .ok rfl hi (hs.disconnect hi.pool name)⟩
    | connections pool =>
      obtain rfl := of_decide_eq_true hplain
      exact .view fun hi hs => hs.pool hi.pool

theorem asking_handlers {handlers : List Handler} (h : ∀ k ∈ handlers, Handler.Uniform k) :
    ∀ k ∈ handlers, Handler.Uniform k ∧ Handler.Asks (fun _ => true) k :=
  fun k hk => ⟨h k hk, fun f => Native.asks_all (k f)⟩

/-- All queries are answered in the same way. -/
theorem answers (he : T.Runs e) : T.coupling.Answers T.pairing e fun _ => true where
  toOnStacks := T.onStacks
  answer _ hq := coupled_answer he hq

end Twins

end Wordstack
