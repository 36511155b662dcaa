import Wordstack.Bridge.Network
import Wordstack.Proofs.Machine.Making
import Wordstack.Proofs.Machine.Runs

/-!
# Requests and nested work in lockstep

A request is served by an interpreter of its own, so it does not matter what the interpreter that
sends it looks like.

- **New interpreters** (`Interp.New`, `Interp.Made`): nothing is in progress on them.
- **The service** (`Task.Alike.serveWord`, `Task.Alike.serveSequence`) and **sending**
  (`Task.Alike.send`): the same response on both sides.
- **One machine twice** (`Nested.Alike.exact`): it does the same from interpreters that are equal,
  and so does one that allows deeper nesting (`Nested.Alike.deeper`).
- **Watched machines** (`watched`): a machine that gives up as soon as a nested run breaks a rule.
  It ends like the machine itself unless it gives up (`Nested.Alike.watched`).
-/

namespace Wordstack

/-! ## New interpreters -/

theorem Store.Blind.define {s s' : Store} (hs : s.Blind) {spec : ModuleSpec} (hb : spec.Blind)
    {m : Nat} (h : s.define spec = .ok (m, s')) : s'.Blind := by
  obtain ⟨module, hm, -, rfl⟩ := Store.of_define h
  exact Store.Blind.addModule (s := { s with nextId := s.nextId + module.words.length }) hs
    (ModuleSpec.blind_build hb hm)

namespace Interp

variable {i : Interp} {s s' : Store} {settings : Settings}

/-- An interpreter that nothing is in progress on. -/
structure New (i : Interp) : Prop where
  inputs : i.inputs = []
  idle : i.Idle
  marks : i.marks = []
  initializing : i.initializing = []
  scope : i.scope = [i.app]

/-- Modules that are registered or pending, and a stack, are nothing in progress. -/
theorem New.prepare (h : i.New) (registered : List (String × Nat)) (pending : List Nat)
    (stack : OperandStack) : New { i with registered, pending, stack } :=
  ⟨h.inputs, h.idle, h.marks, h.initializing, h.scope⟩

/-- What making an interpreter leaves: a new one with the standard literals, and blind words at
most. -/
structure Made (s : Store) (is : Interp × Store) : Prop where
  new : is.1.New
  readers : ∃ zone now, is.1.readers = Literal.standard zone now
  blind : s.Blind → is.2.Blind

theorem Made.importAtCreation {s₀ : Store} (h : Made s₀ (i, s)) (m : Nat) :
    Made s₀ (importAtCreation (i, s) m) := by
  refine ⟨?_, ?_, fun hb => (h.blind hb).updateModule _ fun _ hm => hm⟩
  · unfold Interp.importAtCreation
    simp only
    split
    · exact h.new
    · exact h.new.prepare i.registered _ i.stack
  · unfold Interp.importAtCreation
    simp only
    split
    · exact h.readers
    · exact h.readers

theorem Made.attach {s₀ : Store} (h : Made s₀ (i, s)) (m : Nat) : Made s₀ (attach (i, s) m) :=
  Made.importAtCreation (i := i.register s m)
    ⟨h.new.prepare _ i.pending i.stack, h.readers, h.blind⟩ m

theorem Made.attachAll {s₀ : Store} (h : Made s₀ (i, s)) (ms : List Nat) :
    Made s₀ (ms.foldl Interp.attach (i, s)) := by
  induction ms generalizing i s with
  | nil => exact h
  | cons m ms ih => exact ih (h.attach m)

theorem made_of_bare {isStandard : Bool} (h : bare s settings isStandard = .ok (i, s')) :
    Made s (i, s') := by
  obtain ⟨-, rfl, rfl⟩ := of_bare h
  exact ⟨⟨rfl, rfl, rfl, rfl, rfl⟩, ⟨_, _, rfl⟩,
    fun hb => hb.addModule fun w hw => absurd hw List.not_mem_nil⟩

theorem Made.withCore {s₀ : Store} (h : Made s₀ (i, s)) {i' : Interp}
    (hc : i.withCore s = .ok (i', s')) : Made s₀ (i', s') := by
  obtain ⟨m, -, hm⟩ | ⟨-, m, s'', hd, hm⟩ := of_withCore hc
  · exact hm ▸ h.importAtCreation m
  · have hmade : Made s₀ (i, s'') :=
      ⟨h.new, h.readers, fun hb => Store.Blind.define (h.blind hb) coreModule_blind hd⟩
    exact hm ▸ hmade.attach m

theorem made_of_standard {ms : List Nat} (h : standard s settings ms = .ok (i, s')) :
    Made s (i, s') := by
  obtain ⟨i₀, s₀, i₁, s₁, hbare, hcore, hi⟩ := of_standard h
  exact hi ▸ ((made_of_bare hbare).withCore hcore).attachAll ms

theorem made_of_plain {ms : List Nat} (h : plain s settings ms = .ok (i, s')) :
    Made s (i, s') := by
  obtain ⟨i₀, s₀, hbare, hi⟩ := of_plain h
  exact hi ▸ (made_of_bare hbare).attachAll ms

end Interp

/-! ## The service -/

/-- The likeness of interpreters that serve a request: none, but their stores may differ. -/
def Likeness.serving (blind : Bool) (pending : Nat) : Likeness := { pending, blind }

theorem Likeness.serving_sound (blind : Bool) (pending : Nat) : (serving blind pending).Sound where
  texts := fun _ => rfl
  blurs := rfl
  blind := fun h => by simp [serving] at h
  relocates := fun h => by simp [serving] at h
  floor := Nat.zero_le 2
  holds := .trivial 0
  recovery := fun h => by simp [serving] at h

/-- A new interpreter is like itself. -/
theorem Interp.New.serving {i : Interp} (h : i.New) (blind : Bool) :
    (Likeness.serving blind i.pending.length).Interps i i := by
  refine Likeness.Fits.self ⟨h.inputs, Nat.le_refl _, trivial, ?_⟩ rfl
  rw [h.idle.definition]
  exact fun _ d hd => by simp at hd

namespace Task.Alike

variable {L : Likeness} {e e' : Nested}

/-- Stores that do not differ in places are alike for those who serve requests as well. -/
theorem serving_stores (hr : L.relocates = false) (pending : Nat) {s t : Store} :
    L.Stores s t ↔ (Likeness.serving L.blind pending).Stores s t := by
  unfold Likeness.Stores
  rw [hr]
  rfl

/-- A look at what does not depend on places and memos, where words do not differ. -/
theorem view_modules {α : Type} (hr : L.relocates = false) {f : Store → α}
    (hf : ∀ s memos, f (s.remembering memos) = f s) :
    Alike L L (· = ·) (Task.view fun _ s => f s) (Task.view fun _ s => f s) := by
  refine viewing fun _ hs => ?_
  rw [(hs.alike hr).rest]
  exact (hf ..).symm

/-- A new interpreter for a request, the same one on both sides. -/
theorem seeded (hr : L.relocates = false) (r : Runtime) (stack : List Json) :
    Alike L L (fun i j => i = j ∧ i.New) (r.seeded stack) (r.seeded stack) := by
  have hmake : Alike L L (fun i j => i = j ∧ i.New) (Task.ofStore? r.interpreter)
      (Task.ofStore? r.interpreter) := by
    refine ⟨fun {i j s t} hi hs => ?_⟩
    have hf : ∀ s memos, r.interpreter (s.remembering memos) =
        (r.interpreter s).map fun p => (p.1, p.2.remembering memos) :=
      fun s memos => Interp.standard_revised s (fun _ => memos) id ..
    unfold Task.ofStore?
    cases h : r.interpreter s with
    | error f =>
      have ht : r.interpreter t = .error f := by
        rw [(hs.alike hr).rest, hf, h]
        rfl
      rw [ht]
      exact .fault (.refl _ _) hi hs
    | ok p =>
      have hmade : Interp.Made s (p.1, p.2) := Interp.made_of_standard h
      obtain ⟨ht, hs'⟩ := hs.operate? hr hf h fun _ => hmade.blind
      rw [ht]
      exact .ok ⟨rfl, hmade.new⟩ hi hs'
  unfold Runtime.seeded
  refine hmake.bind ?_
  rintro i _ ⟨rfl, hnew⟩
  refine (lift_same _).bind ?_
  rintro vs _ rfl
  exact pure ⟨rfl, hnew.prepare i.registered i.pending _⟩

/-- Work of a new interpreter, which the interpreter that sent the request does not see. -/
theorem serve {α : Type} (hr : L.relocates = false) {x y : Task α} {i : Interp} (hi : i.New)
    (h : Alike (.serving L.blind i.pending.length) (.serving L.blind i.pending.length) (· = ·)
      x y) :
    Alike L L (· = ·) (Task.onOther i x) (Task.onOther i y) := by
  have hother : Alike L L _ (Task.onOther i x) (Task.onOther i y) :=
    h.onOther (hi.serving L.blind) (serving_stores hr _) fun h => .of_eq h
  refine hother.mono (.refl L) ?_
  rintro ⟨a, i'⟩ ⟨b, j'⟩ ⟨rfl, hij⟩
  exact congrArg (Prod.mk a) (hij.eq (Likeness.serving_sound ..) rfl).symm

/-- Where faults are equal so are the values that they are turned into. -/
theorem attempt_same {α : Type} (hL : L.blurs = false) {x y : Task α}
    (h : Alike L L (· = ·) x y) : Alike L L (· = ·) x.attempt y.attempt := by
  refine h.attempt.mono (.refl L) fun a b hab => ?_
  cases hab with
  | ok h => exact congrArg Except.ok h
  | error h =>
    unfold Likeness.fault at h
    rw [hL] at h
    exact congrArg Except.error h

theorem serveWord (hL : L.blurs = false) (hr : L.relocates = false)
    (he : ∀ pending, Nested.Alike (.serving L.blind pending) e e') (r : Runtime)
    (request : WordRequest) :
    Alike L L (· = ·) (r.executeWord e request) (r.executeWord e' request) := by
  unfold Runtime.executeWord
  refine (log _ _ _).bind fun _ _ _ => ?_
  refine (attempt_same hL ((seeded hr r request.stack).bind ?_)).bind ?_
  · rintro i _ ⟨rfl, hnew⟩
    have hword := executeWord (Likeness.serving_sound L.blind i.pending.length) (he _) request.word
    refine (serve hr hnew hword.call).bind ?_
    rintro ⟨_, i⟩ _ rfl
    exact lift_same _
  · rintro outcome _ rfl
    cases outcome with
    | ok stack => exact pure rfl
    | error f => exact (log _ _ _).bind fun _ _ _ => pure rfl

theorem runWords (hL : L.Sound) (hb : L.blurs = false) (he : Nested.Alike L e e') (n : Nat)
    (words : List String) :
    Alike L L (· = ·) (Runtime.runWords e n words) (Runtime.runWords e' n words) := by
  induction words generalizing n with
  | nil => exact pure rfl
  | cons word rest ih =>
    unfold Runtime.runWords
    refine (attempt_same hb (executeWord hL he word).call).bind ?_
    rintro outcome _ rfl
    cases outcome with
    | ok => exact ih (n + 1)
    | error f => exact pure rfl

theorem serveSequence (hL : L.blurs = false) (hr : L.relocates = false)
    (he : ∀ pending, Nested.Alike (.serving L.blind pending) e e') (r : Runtime)
    (request : SequenceRequest) :
    Alike L L (· = ·) (r.executeSequence e request) (r.executeSequence e' request) := by
  unfold Runtime.executeSequence
  refine (log _ _ _).bind fun _ _ _ => ?_
  refine (seeded hr r request.stack).attempt.bind fun a b hab => ?_
  cases hab with
  | error h =>
    unfold Likeness.fault at h
    rw [hL] at h
    obtain rfl := h
    exact pure rfl
  | ok h =>
    obtain ⟨rfl, hnew⟩ := h
    refine (serve hr hnew (runWords (Likeness.serving_sound ..) rfl (he _) 0 request.words)).bind ?_
    rintro ⟨failure, i⟩ _ rfl
    cases failure with
    | some w => exact pure rfl
    | none =>
      simp only
      split
      · exact pure rfl
      · exact pure rfl

theorem inTime {α : Type} (p : Endpoint) (method : Method) {x y : Task α}
    (h : Alike L L (· = ·) x y) :
    Alike L L (· = ·) (p.inTime method x) (p.inTime method y) := by
  unfold Endpoint.inTime
  refine (h.within p.timeout).bind fun a b hab => ?_
  cases hab with
  | some h => exact pure (congrArg Except.ok h)
  | none => exact pure rfl

theorem invoke (hL : L.blurs = false) (hr : L.relocates = false)
    (he : ∀ pending, Nested.Alike (.serving L.blind pending) e e') (p : Endpoint)
    (method : Method) (body : Option Json) :
    Alike L L (· = ·) (p.invoke e method body) (p.invoke e' method body) := by
  unfold Endpoint.invoke
  cases method with
  | executeWord =>
    refine (lift_same _).bind ?_
    rintro request _ rfl
    refine (inTime p _ (serveWord hL hr he p.runtime request)).bind ?_
    rintro response _ rfl
    exact pure rfl
  | executeSequence =>
    refine (lift_same _).bind ?_
    rintro request _ rfl
    refine (inTime p _ (serveSequence hL hr he p.runtime request)).bind ?_
    rintro response _ rfl
    exact pure rfl
  | listModules =>
    refine (view_modules hr fun _ _ => rfl).bind ?_
    rintro listing _ rfl
    exact pure rfl
  | getModuleInfo =>
    refine (lift_same _).bind ?_
    rintro request _ rfl
    refine (view_modules hr fun _ _ => rfl).bind ?_
    rintro outcome _ rfl
    refine (lift_same outcome).bind ?_
    rintro doc _ rfl
    exact pure rfl

theorem answerCall (hL : L.blurs = false) (hr : L.relocates = false)
    (he : ∀ pending, Nested.Alike (.serving L.blind pending) e e') (p : Endpoint) (name : String)
    (body : Json) :
    Alike L L (· = ·) (Http.answerCall e p name body) (Http.answerCall e' p name body) := by
  unfold Http.answerCall
  split
  · exact pure rfl
  · refine (attempt_same hL (invoke hL hr he p _ _)).bind ?_
    rintro outcome _ rfl
    cases outcome with
    | ok x => exact pure rfl
    | error f => exact pure rfl

/-- Where words may differ there is nobody to send a request to. -/
theorem send (hL : L.blurs = false)
    (he : L.relocates = false → ∀ pending, Nested.Alike (.serving L.blind pending) e e')
    (url : String) (method : Method) (body : Json) :
    Alike L L (· = ·) (Network.send e url method body) (Network.send e' url method body) := by
  unfold Network.send
  refine (updateStore fun hs => hs.update
    (fun s => { s with sent := ⟨url ++ "/rpc/" ++ method.name, body.sent⟩ :: s.sent })
    fun _ _ => rfl).bind fun _ _ _ => ?_
  refine (viewing (R := fun a b => b = a ∧ (L.relocates = true → a = [])) fun _ hs =>
    ⟨hs.endpoints, hs.alone⟩).bind ?_
  rintro endpoints _ ⟨rfl, halone⟩
  cases hr : L.relocates with
  | true =>
    rw [halone hr]
    exact pure rfl
  | false =>
    split
    · exact pure rfl
    · refine (answerCall hL hr (he hr) _ _ _).bind ?_
      rintro ⟨status, x⟩ _ rfl
      exact pure rfl

end Task.Alike

/-! ## Nested work -/

namespace Nested

/-- The outcome of a run, unless the run has broken a rule. The rule sees the interpreter before the
run, the place the run starts from, its outcome and the interpreter after it. -/
def judge (rule : Interp → Location → Except Fault Unit → Interp → Bool) (before : Interp)
    (origin : Location) (outcome : Except Fault Unit) : Task Unit := do
  let after ← Task.interp
  if rule before origin outcome after then Task.lift outcome else Task.exhausted

/-- Nested work that gives up when a run breaks a rule. -/
def watch (rule : Interp → Location → Except Fault Unit → Interp → Bool) (e : Nested) :
    Nested where
  run source origin := do
    let before ← Task.interp
    let outcome ← Task.attempt (e.run source origin)
    judge rule before origin outcome
  send := e.send

section Judge

variable {rule : Interp → Location → Except Fault Unit → Interp → Bool} {before after : Interp}
  {origin : Location} {outcome : Except Fault Unit} {s : Store}

theorem watch_run_apply (rule : Interp → Location → Except Fault Unit → Interp → Bool) (e : Nested)
    (source : String) (origin : Location) (i : Interp) (s : Store) :
    (e.watch rule).run source origin i s =
      ((e.run source origin i s).attempt).bind (judge rule i origin) := rfl

theorem judge_kept (h : rule before origin outcome after = true) :
    judge rule before origin outcome after s = Task.lift outcome after s := by
  show (ite (rule before origin outcome after = true) _ _ : Task Unit) after s = _
  rw [if_pos h]

theorem judge_broken (h : rule before origin outcome after = false) :
    judge rule before origin outcome after s = .done .exhausted after s := by
  show (ite (rule before origin outcome after = true) _ _ : Task Unit) after s = _
  rw [h, if_neg Bool.false_ne_true]
  rfl

end Judge

end Nested

/-- Runs and requests that are nested at most `depth` deep, where every nested run keeps a rule. -/
def watched (rule : Interp → Location → Except Fault Unit → Interp → Bool) : Nat → Nested
  | 0 => nested 0
  | depth + 1 =>
    Nested.watch rule
      ⟨fun source origin => runSource (watched rule depth) source origin,
       fun url method body => Network.send (nested depth) url method body⟩

namespace Nested.Alike

/-- Where every run is the outermost one on both sides or on none, a machine does the same as one
that allows deeper nesting, unless it gives up. -/
theorem of_le {L : Likeness} (hL : L.Sound) (hf : L.floor = 0)
    (hout : ∀ inputs, inputs ++ L.under = [] ↔ inputs ++ L.around = []) {depth depth' : Nat}
    (hd : depth ≤ depth') : Nested.Alike L (nested depth) (nested depth') := by
  induction depth generalizing L depth' with
  | zero => exact ⟨fun _ _ _ => ⟨fun _ _ => .exhausted⟩, fun _ _ _ _ => ⟨fun _ _ => .exhausted⟩⟩
  | succ depth ih =>
    obtain ⟨depth', rfl⟩ := Nat.exists_eq_succ_of_ne_zero (Nat.ne_zero_of_lt hd)
    have hd : depth ≤ depth' := Nat.le_of_succ_le_succ hd
    refine ⟨fun {inputs pending} source origin hle => ?_, fun url method body hle => ?_⟩
    · have hrun := Task.Alike.runSource (hL.reading inputs pending)
        ((ih hL hf hout hd).reading inputs hle) (hout inputs) source origin
      exact hrun.mono (Likeness.le_ended (L := L.reading inputs pending) hf origin) fun _ _ => id
    · exact Task.Alike.send rfl
        (fun _ pending => ih (Likeness.serving_sound _ pending) rfl (fun _ => .rfl) hd)
        url method body

/-- Where places may not differ, every run is the outermost one on both sides or on none. -/
theorem deeper {L : Likeness} (hL : L.Sound) (hl : L.loose = false) (hf : L.floor = 0)
    {depth depth' : Nat} (hd : depth ≤ depth') : Nested.Alike L (nested depth) (nested depth') :=
  of_le hL hf (fun _ => by rw [hL.texts hl]) hd

/-- One machine does the same from interpreters that are equal. -/
theorem exact {L : Likeness} (hL : L.Sound) (hl : L.loose = false) (hf : L.floor = 0)
    (depth : Nat) : Nested.Alike L (nested depth) (nested depth) :=
  deeper hL hl hf (Nat.le_refl depth)

variable {rule : Interp → Location → Except Fault Unit → Interp → Bool}

/-- A watched run ends like the run itself, and so that the rule is kept. -/
theorem watch_run {L : Likeness} (e e' : Nested) {source : String} {origin : Location}
    (h : Task.Alike L L (· = ·) (e.run source origin) (e'.run source origin))
    (hrule : ∀ {before outcome after}, rule before origin outcome after = true →
      origin.source.isSome → L.floor ≤ after.scope.length) :
    Task.Alike L (L.ended origin) (· = ·) ((e.watch rule).run source origin)
      (e'.run source origin) := by
  refine ⟨fun {i j s t} hi hst => ?_⟩
  have hend : ∀ {outcome k l}, rule i origin outcome k = true → L.Interps k l →
      (L.ended origin).Interps k l := by
    intro outcome k l hr hkl
    exact hkl.refit (fun hf => ⟨hf.inputs, hf.pending, ⟨hf.holds, hrule hr⟩, hf.body⟩) rfl rfl rfl
  rw [watch_run_apply]
  refine (h.steps hi hst).attempt_bind_left id (fun {a b k l s' t'} hab hk hst' => ?_)
    fun {f g k l s' t'} hfg hk hst' => ?_
  · cases hr : rule i origin (.ok a) k with
    | true => rw [judge_kept hr]; exact .ok hab (hend hr hk) hst'
    | false => rw [judge_broken hr]; exact .exhausted
  · cases hr : rule i origin (.error f) k with
    | true => rw [judge_kept hr]; exact .fault hfg (hend hr hk) hst'
    | false => rw [judge_broken hr]; exact .exhausted

/-- A watched machine ends like the machine itself, unless it gives up. -/
theorem watched {L : Likeness} (hL : L.Sound) (hl : L.loose = false)
    (hrule : ∀ {before origin outcome after}, rule before origin outcome after = true →
      origin.source.isSome → L.floor ≤ after.scope.length) (depth : Nat) :
    Nested.Alike L (watched rule depth) (nested depth) := by
  induction depth with
  | zero => exact ⟨fun _ _ _ => .exhausted, fun _ _ _ _ => .exhausted⟩
  | succ depth ih =>
    refine ⟨fun {inputs pending} source origin hle => ?_, fun url method body hle => ?_⟩
    · have hL' := hL.reading inputs pending
      have hrun := Task.Alike.runSource hL' (ih.reading inputs hle) (by rw [hL'.second_eq hl])
        source origin
      exact watch_run _ (nested (depth + 1)) hrun hrule
    · exact Task.Alike.send rfl
        (fun _ pending => exact (Likeness.serving_sound _ pending) rfl rfl depth) url method body

end Nested.Alike

end Wordstack
