import Wordstack.Proofs.Bridge.FrozenRegistry
import Wordstack.Proofs.Machine.TwinnedRuns
import Wordstack.Proofs.Vocabulary.Uniform

/-!
# Requests served twice

A request is served by a new interpreter. In twin runs of a runtime, whose modules are those of the
library, it is answered in the same way.

- **Declared modules** (`Twins.Stores.define`): they are built twice, with other identities.
- **New interpreters** (`Twins.paired_interpreter`): made with modules that are ready, so none is
  put off.
- **The service** (`Twins.coupled_serveWord`, `Twins.coupled_serveSequence`), **listings** and
  **nesting** (`Twins.runs_nested`).
- **Requests** (`Twins.respond_eq`, `Twins.stores_serve`).
-/

namespace Wordstack

theorem Word.Paired.doc_eq {P : Pairing} {v w : Word} (h : v.Paired P w) : v.doc = w.doc := by
  rw [Word.doc, Word.doc, h.name_eq, h.label.effect, h.label.description]

/-- What a runtime answers. -/
inductive Runtime.Response where
  | stack (outcome : Except Fault StackResponse)
  | modules (summaries : List ModuleSummary)
  | info (doc : Except Fault ModuleDoc)

/-- The response to a request. -/
def Runtime.Request.respond (e : Nested) (r : Runtime) (s : Store) : Request → Response
  | word request => .stack ((r.executeWord e request).settle .host s).1
  | sequence request => .stack ((r.executeSequence e request).settle .host s).1
  | modules => .modules (r.listModules s)
  | info name => .info (r.moduleInfo s name)

/-- A library with the modules of a runtime in it, which are ready. -/
def Library.Serves (L : Library) (r : Runtime) : Prop :=
  ∀ m ∈ r.registry.modules, L.known m ∧ (L.base.module m).isReady = true

namespace Twins

variable {T : Twins} {i j : Interp} {s t : Store} {m n : Nat} {e : Nested} {r : Runtime}

/-! ## Declared modules -/

/-- The words of a declaration are the same but for the identities that they take. -/
theorem paired_relabel {spec : ModuleSpec} (h : spec.Uniform) {ws : List Word}
    (hws : spec.words = .ok ws) :
    ∀ w ∈ ws, ∀ {P : Pairing} {a b : Nat} (home : String), P.id a b →
      (w.relabel fun l => { l with id := some a, home := some home }).Paired P
        (w.relabel fun l => { l with id := some b, home := some home }) := by
  have hlabel : ∀ {P : Pairing} {a b : Nat} (l : WordLabel) (home : String), P.id a b →
      WordLabel.Paired P { l with id := some a, home := some home }
        { l with id := some b, home := some home } :=
    fun _ _ hid => ⟨rfl, .some hid, rfl, rfl, rfl, rfl⟩
  refine ModuleSpec.of_words hws (fun s hs l inputs takesOptions P a b home hid => ?_)
    fun s hs l P a b home hid => ?_
  · exact .native (hlabel l home hid) inputs takesOptions s.waits (h.natives s hs).1
      (h.natives s hs).2
  · exact .direct (hlabel l home hid) s.waits (h.directs s hs).1 (h.directs s hs).2

/-- A declared module is built twice, from identities that lie equally far behind two places. -/
theorem paired_build {spec : ModuleSpec} (h : spec.Uniform) (hsource : spec.source.isEmpty = true)
    {a b : Nat} (hab : Later T.first.nextId T.second.nextId a b) :
    ExceptPaired T.NewModules (spec.build a) (spec.build b) := by
  unfold ModuleSpec.build
  cases hw : spec.words with
  | error f => exact .error f
  | ok ws =>
    have hpaired := paired_relabel h hw
    simp only [bind, Except.bind]
    split
    · exact .error _
    refine .ok ?_
    -- the words are added one by one
    have hfold : ∀ {vs : List Word} {a b : Nat} {x y : Module}, (∀ w ∈ vs, w ∈ ws) →
        Later T.first.nextId T.second.nextId a b → T.NewModules x y →
        T.NewModules ((vs.zipIdx a).foldl (fun m w => m.addWord w.2 w.1) x)
          ((vs.zipIdx b).foldl (fun m w => m.addWord w.2 w.1) y) := by
      intro vs
      induction vs with
      | nil => exact fun _ _ hxy => hxy
      | cons v vs ih =>
        intro a b x y hvs hab hxy
        obtain ⟨hv, hvs⟩ := List.forall_mem_cons.mp hvs
        refine ih hvs (hab.add 1) { hxy with toPaired := { hxy.toPaired with words := ?_ } }
        refine List.rel_append hxy.words (.cons ?_ .nil)
        rw [hxy.name]
        exact hpaired v hv _ (.inr hab)
    have hnew : T.NewModules
        (Module.new spec.name spec.description spec.source spec.runtimeSpecific)
        (Module.new spec.name spec.description spec.source spec.runtimeSpecific) :=
      ⟨⟨rfl, rfl, rfl, .nil, rfl, .nil, .nil⟩, ⟨hsource, hsource⟩, .nil⟩
    have hxy := hfold (fun _ => id) hab hnew
    exact { hxy with toPaired := hxy.toPaired.addExports _ }

theorem Stores.define (h : T.Stores s t) {spec : ModuleSpec} (hspec : spec.Uniform)
    (hsource : spec.source.isEmpty = true) :
    ExceptPaired (fun p q => T.Made p.1 q.1 ∧ T.Stores p.2 q.2) (s.define spec) (t.define spec) := by
  unfold Store.define
  refine (paired_build hspec hsource h.ids).bind fun x y hxy => .ok ?_
  rw [hxy.words.length_eq]
  exact (h.takeIds _).addModule hxy

/-! ## New interpreters -/

/-- Interpreters with their stores that are the same but for identities. -/
structure Pairs (T : Twins) (is js : Interp × Store) : Prop where
  interps : T.Interps is.1 js.1
  stores : T.Stores is.2 js.2

/-- Modules that are ready are imported and not put off. -/
theorem Pairs.importAtCreation (h : T.Pairs (i, s) (j, t)) (hmn : T.Found m n) :
    T.Pairs (Interp.importAtCreation (i, s) m) (Interp.importAtCreation (j, t) n) := by
  have hs := h.stores.updateModule h.interps.app (f := fun app => app.addImport ⟨m, ""⟩)
    (g := fun app => app.addImport ⟨n, ""⟩) fun hxy =>
      { hxy with toPaired := hxy.toPaired.addImport ⟨hmn.known, rfl⟩ }
  obtain ⟨hm, hn⟩ := hs.ready hmn
  unfold Interp.importAtCreation
  dsimp only
  rw [if_pos hm, if_pos hn]
  exact ⟨h.interps, hs⟩

theorem Pairs.attach (h : T.Pairs (i, s) (j, t)) (hmn : T.Found m n) :
    T.Pairs (Interp.attach (i, s) m) (Interp.attach (j, t) n) := by
  refine Pairs.importAtCreation ⟨{ h.interps with registered := ?_ }, h.stores⟩ hmn
  show List.Forall₂ (Named T.Found) (Json.setField i.registered (s.module m).name m)
    (Json.setField j.registered (t.module n).name n)
  rw [h.stores.name_eq hmn.known]
  exact Named.setField h.interps.registered _ hmn

theorem Pairs.attachAll {is js : Interp × Store} (h : T.Pairs is js) {ms : List Nat}
    (hms : ∀ m ∈ ms, T.Found m m) :
    T.Pairs (ms.foldl Interp.attach is) (ms.foldl Interp.attach js) :=
  List.rel_foldl (R := T.Found) (P := T.Pairs) (fun _ _ h _ _ hmn => h.attach hmn) h
    (List.forall₂_same.mpr hms)

theorem paired_bare (hs : T.Stores s t) {settings : Interp.Settings} (isStandard : Bool)
    (hr : ∀ e ∈ settings.registry.entries, T.Found e.2 e.2) (hrecovery : settings.recovery = none) :
    ExceptPaired T.Pairs (Interp.bare s settings isStandard)
      (Interp.bare t settings isStandard) := by
  unfold Interp.bare
  dsimp only
  split
  · obtain ⟨happ, hs⟩ := hs.addModule (x := { name := "" }) (y := { name := "" })
      ⟨⟨rfl, rfl, rfl, .nil, rfl, .nil, .nil⟩, ⟨rfl, rfl⟩, .nil⟩
    obtain ⟨hpool, hs⟩ := hs.addPool
    refine .ok ⟨?_, hs⟩
    exact {
      recovery := ⟨hrecovery, hrecovery⟩
      registry := List.forall₂_same.mpr fun e he => .mk e.1 (hr e he)
      registered := .nil
      app := happ
      scope := .cons happ .nil
      readers := congrArg (Literal.standard _) (hs.left.now.trans hs.right.now.symm)
      literals := fun r hr text v hv => Literal.isSerializable_of_standard hr hv
      stack := .nil
      profile := rfl
      inputs := rfl
      previous := rfl
      call := rfl
      compiling := rfl
      memoDefinition := rfl
      definition := .none
      marks := rfl
      pending := ⟨rfl, rfl⟩
      pool := hpool }
  · exact .error _

theorem Pairs.withCore (h : T.Pairs (i, s) (j, t)) :
    ExceptPaired T.Pairs (i.withCore s) (j.withCore t) := by
  have hcore : Option.Rel T.Found (i.registry.get? coreName) (j.registry.get? coreName) :=
    Named.lookup h.interps.registry coreName
  cases hi : i.registry.get? coreName <;> cases hj : j.registry.get? coreName <;>
    rw [hi, hj] at hcore <;> cases hcore
  case some.some hmn =>
    unfold Interp.withCore
    rw [hi, hj]
    exact .ok (h.importAtCreation hmn)
  case none.none =>
    rw [Interp.withCore_of_none hi, Interp.withCore_of_none hj]
    exact (h.stores.define coreModule_uniform rfl).map fun p q hpq =>
      Pairs.attach ⟨h.interps, hpq.2⟩ hpq.1.found

/-- Interpreters of a runtime are made with known modules. -/
theorem paired_interpreter (hr : T.Serves r) (hs : T.Stores s t) :
    ExceptPaired T.Pairs (r.interpreter s) (r.interpreter t) := by
  have hfound : ∀ e ∈ r.registry.entries, T.Found e.2 e.2 := fun e he =>
    .inl ⟨hr e.2 (List.mem_map_of_mem he), rfl⟩
  have hms : ∀ m ∈ r.registry.entries.filterMap fun e =>
      if e.1 = coreName then none else some e.2, T.Found m m := by
    intro m hm
    obtain ⟨e, he, hm⟩ := List.mem_filterMap.mp hm
    split at hm
    · cases hm
    · exact Option.some.inj hm ▸ hfound e he
  unfold Runtime.interpreter Interp.standard
  refine (paired_bare hs true hfound rfl).bind fun is js h => ?_
  exact h.withCore.bind fun is js h => .ok (h.attachAll hms)

/-! ## The service -/

/-- What is to hold between the two stores, whatever holds of interpreters. -/
def around (T : Twins) : Coupling := ⟨fun _ _ => True, T.Stores⟩

theorem coupled_seeded (hr : T.Serves r) (stack : List Json) :
    (r.seeded stack).Coupled T.around T.Interps (r.seeded stack) := by
  unfold Runtime.seeded
  refine Task.Coupled.bind (R := T.Interps) (.ofStore? fun hs => ?_) fun i j hi => ?_
  · exact (paired_interpreter hr hs).mono fun _ _ h => ⟨h.interps, h.stores⟩
  · refine Task.Coupled.bind (R := Val.AllPaired T.pairing) (.lift ?_) fun vs ws hvs => .pure ?_
    · -- nothing that is sent has an identity
      have hsent := Wire.serializable_decodeStack "stack" (some (.arr stack))
      cases hd : Wire.decodeStack "stack" (some (.arr stack)) with
      | ok vs => exact .ok (Val.Paired.selfAll (hsent vs hd))
      | error f => exact .error f
    · exact hi.withStack (List.rel_reverse hvs)

/-- Work on interpreters of their own that are the same but for identities. -/
theorem coupled_onOther {α : Type} {x : Task α} (hx : T.Tasks (· = ·) x x) (hi : T.Interps i j) :
    (Task.onOther i x).Coupled T.around (fun p q => p.1 = q.1 ∧ T.Interps p.2 q.2)
      (Task.onOther j x) :=
  Task.Coupled.onOther (D := T.coupling) hx hi Iff.rfl

/-- What is left is the same on the wire. -/
theorem encodeStack_eq (hi : T.Interps i j) :
    Wire.encodeStack i.stack.toList = Wire.encodeStack j.stack.toList :=
  Val.Paired.encodeStack_eq (List.rel_reverse hi.stack)

theorem coupled_serveWord (he : T.Runs e) (hr : T.Serves r) (request : WordRequest) :
    (r.executeWord e request).Coupled T.around (· = ·) (r.executeWord e request) := by
  have hlog : ∀ message : String, (Task.log .debug Runtime.logScope message).Coupled T.around
      (· = ·) (Task.log .debug Runtime.logScope message) :=
    fun _ => .updateStore fun hs => hs.log _ _ _
  unfold Runtime.executeWord
  refine (hlog _).bind fun _ _ _ => Task.Coupled.bind (R := ExceptPaired (· = ·)) (.attempt ?_)
    fun outcome outcome' h => ?_
  · refine (coupled_seeded hr request.stack).bind fun i j hi => ?_
    refine (coupled_onOther (coupled_executeWord he request.word).call hi).bind fun p q hpq => ?_
    refine .lift ?_
    rw [encodeStack_eq hpq.2]
    cases Wire.encodeStack q.2.stack.toList with
    | ok xs => exact .ok rfl
    | error f => exact .error f
  · cases h with
    | ok h => exact h ▸ .pure rfl
    | error f => exact (hlog _).bind fun _ _ _ => .pure rfl

theorem coupled_runWords (he : T.Runs e) (n : Nat) (words : List String) :
    T.Tasks (· = ·) (Runtime.runWords e n words) (Runtime.runWords e n words) := by
  induction words generalizing n with
  | nil => exact .pure rfl
  | cons word rest ih =>
    unfold Runtime.runWords
    refine (coupled_executeWord he word).call.attempt.bind fun outcome outcome' h => ?_
    cases h with
    | ok => exact ih (n + 1)
    | error f => exact .pure rfl

theorem coupled_serveSequence (he : T.Runs e) (hr : T.Serves r) (request : SequenceRequest) :
    (r.executeSequence e request).Coupled T.around (· = ·) (r.executeSequence e request) := by
  unfold Runtime.executeSequence
  refine Task.Coupled.bind (R := (· = ·)) (.updateStore fun hs => hs.log _ _ _) fun _ _ _ => ?_
  refine (coupled_seeded hr request.stack).attempt.bind fun outcome outcome' h => ?_
  cases h with
  | error f => exact .pure rfl
  | ok hi =>
    refine (coupled_onOther (coupled_runWords he 0 request.words) hi).bind fun p q hpq => ?_
    obtain ⟨failure, j⟩ := p
    obtain ⟨failure', j'⟩ := q
    obtain ⟨rfl, hj⟩ : failure = failure' ∧ T.Interps j j' := hpq
    cases failure with
    | some w => exact .pure rfl
    | none =>
      dsimp only
      rw [encodeStack_eq hj]
      split
      · exact .pure rfl
      · exact .pure rfl

/-! ## Listings -/

theorem exportedWords_known (hs : T.Stores s t) (hm : T.known m) :
    List.Forall₂ (Word.Paired T.pairing) (exportedWords s.modules m) (exportedWords t.modules m) :=
  exportedWords_paired hs.modulesPaired (.inl ⟨hm, rfl⟩)

theorem module_known (hs : T.Stores s t) (hm : T.known m) : s.module m = t.module m :=
  (hs.left.module hm).trans (hs.right.module hm).symm

theorem summaryOf_eq (hs : T.Stores s t) (hm : T.known m) :
    summaryOf s.modules m = summaryOf t.modules m := by
  have hmodule : s.modules[m]?.getD default = t.modules[m]?.getD default := module_known hs hm
  unfold summaryOf
  rw [hmodule, (exportedWords_known hs hm).length_eq]

theorem describeModule_eq (hs : T.Stores s t) (hm : T.known m) :
    describeModule s.modules m = describeModule t.modules m := by
  have hmodule : s.modules[m]?.getD default = t.modules[m]?.getD default := module_known hs hm
  have hdocs : ∀ {vs ws : List Word}, List.Forall₂ (Word.Paired T.pairing) vs ws →
      vs.map Word.doc = ws.map Word.doc := by
    intro vs ws h
    induction h with
    | nil => rfl
    | cons hw _ ih => rw [List.map_cons, List.map_cons, hw.doc_eq, ih]
  unfold describeModule
  rw [hmodule, hdocs (exportedWords_known hs hm)]

/-! ## Nesting -/

/-- Runs end in the same way, however deep they are nested. -/
theorem runs_nested (T : Twins) (depth : Nat) : T.Runs (nested depth) := by
  induction depth with
  | zero => exact ⟨fun _ _ => .exhausted⟩
  | succ depth ih => exact ⟨coupled_runSource ih⟩

/-! ## Requests -/

/-- A request is answered in the same way in twin runs. -/
theorem respond_eq (he : T.Runs e) (hr : T.Serves r) (hs : T.Stores s t)
    (request : Runtime.Request) : request.respond e r s = request.respond e r t := by
  cases request with
  | word request =>
    exact congrArg Runtime.Response.stack
      ((coupled_serveWord he hr request).settle (C := T.around) ⟨⟩ hs).1
  | sequence request =>
    exact congrArg Runtime.Response.stack
      ((coupled_serveSequence he hr request).settle (C := T.around) ⟨⟩ hs).1
  | modules =>
    exact congrArg Runtime.Response.modules
      (List.map_congr_left fun m hm => summaryOf_eq hs (hr m hm).1)
  | info name =>
    refine congrArg Runtime.Response.info ?_
    unfold Runtime.moduleInfo
    cases hm : r.registry.get? name with
    | none => rfl
    | some m =>
      exact congrArg Except.ok
        (describeModule_eq hs (hr m (List.mem_map_of_mem (mem_of_lookup hm))).1)

theorem stores_serve (he : T.Runs e) (hr : T.Serves r) (hs : T.Stores s t)
    (request : Runtime.Request) : T.Stores (r.serve e s request) (r.serve e t request) := by
  refine (Task.Coupled.settle (C := T.around) ?_ ⟨⟩ hs).2
  cases request with
  | word request => exact (coupled_serveWord he hr request).bind fun _ _ _ => .pure rfl
  | sequence request => exact (coupled_serveSequence he hr request).bind fun _ _ _ => .pure rfl
  | modules => exact Task.Coupled.bind (R := fun _ _ => True) (.view fun _ _ => ⟨⟩) fun _ _ _ => .pure rfl
  | info name => exact Task.Coupled.bind (R := fun _ _ => True) (.view fun _ _ => ⟨⟩) fun _ _ _ => .pure rfl

end Twins

end Wordstack
