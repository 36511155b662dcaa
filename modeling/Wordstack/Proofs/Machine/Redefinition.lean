import Wordstack.Proofs.Machine.Ends
import Wordstack.Proofs.Word.Blind

/-!
# Beside a redefinition

Two executions of the same code: one before a word was defined, and one after it and at another
place.

- **Redefinitions** (`Redefinition`): what the definition of a word makes different.
  `Redefinition.Beside` relates the states of the two executions, `Redefinition.Ends` how they end.
- **Indifferent words** (`Redefinition.Indifferent`): they end beside each other wherever they begin
  so. A word that looks the name up, or says where it is called from, is not.
- **Tasks** (`Redefinition.Tasks`): one lemma for each operation of the monad.
- **Quiet words**: blind words whose code looks no names up and runs no sources are indifferent
  (`Redefinition.indifferent_of_quiet`).
-/

namespace Wordstack

/-- The interpreter at other places and with other counts. -/
def Interp.placed (i : Interp) (inputs : List String) (call previous : Option Location)
    (profile : Profile) : Interp := { i with inputs, call, previous, profile }

namespace Store

/-- The store with `n` more identities given out. -/
def giveOut (s : Store) (n : Nat) : Store := { s with nextId := s.nextId + n }

/-- The store with a word added to a module, and `n` more identities given out. -/
def withWord (s : Store) (m id : Nat) (w : Word) (n : Nat) : Store :=
  (s.updateModule m fun x => x.addWord id w).giveOut n

end Store

/-- What the definition of a word makes different. -/
structure Redefinition where
  /-- The module that the word is added to. -/
  module : Nat
  name : String
  /-- The number of identities that are given out besides. -/
  given : Nat
  /-- Whether executions are being counted, so that counts differ. -/
  counted : Bool

namespace Redefinition

/-- The second store is the first one with a word of the name added, as far as anybody can tell. -/
def Stores (d : Redefinition) (s t : Store) : Prop :=
  ∃ id w, w.name = d.name ∧ (s.withWord d.module id w d.given).Alike t

/-- The second state is the first one with the word defined, at another place in as many texts. -/
structure Beside (d : Redefinition) (i : Interp) (s : Store) (j : Interp) (t : Store) : Prop where
  interp : j = i.placed j.inputs j.call j.previous j.profile
  depth : j.inputs.length = i.inputs.length
  profile : d.counted = false → j.profile = i.profile
  store : d.Stores s t

/-- Outcomes with results in a relation, or faults that are equal but for places, in states beside
each other. -/
inductive Ends (d : Redefinition) {α β : Type} (R : α → β → Prop) : Outcome α → Outcome β → Prop
  | ok {a : α} {b : β} {i j : Interp} {s t : Store} (h : R a b) (hb : d.Beside i s j t) :
      Ends d R (.ended (.ok a) i s) (.ended (.ok b) j t)
  | fault {f g : Fault} {i j : Interp} {s t : Store} (h : f.blur = g.blur)
      (hb : d.Beside i s j t) : Ends d R (.ended (.fault f) i s) (.ended (.fault g) j t)
  | exhausted {i j : Interp} {s t : Store} :
      Ends d R (.ended .exhausted i s) (.ended .exhausted j t)
  | hung {s t : Store} : Ends d R (.hung s) (.hung t)

/-- The execution of the word goes the same way wherever it is called from, whatever the name stands
for and, if executions are counted, whatever was counted. -/
def Indifferent (d : Redefinition) (e : Nested) (w : Word) (i : Interp) (s : Store) : Prop :=
  ∀ {j : Interp} {t : Store} (l l' : Option Location), d.Beside i s j t →
    d.Ends (· = ·) ((dispatch e w l).finish i s) ((dispatch e w l').finish j t)

/-! ## Stores -/

section Stores

variable {d : Redefinition} {s t : Store}

/-- A look that neither words nor identities nor memos make a difference to. -/
theorem Stores.view {α : Type} (h : d.Stores s t) (f : Store → α)
    (hw : ∀ s m id w n, f (s.withWord m id w n) = f s)
    (hm : ∀ s memos, f (s.remembering memos) = f s) : f t = f s := by
  obtain ⟨id, w, -, ht⟩ := h
  rw [ht.rest, hm, hw]

/-- An operation that looks neither at words nor at identities nor at memos. -/
theorem Stores.update (h : d.Stores s t) (f : Store → Store)
    (hw : ∀ s m id w n, f (s.withWord m id w n) = (f s).withWord m id w n)
    (hm : ∀ s memos, f (s.remembering memos) = (f s).remembering memos) :
    d.Stores (f s) (f t) := by
  obtain ⟨id, w, hname, ht⟩ := h
  refine ⟨id, w, hname, ?_⟩
  rw [← hw]
  exact ht.update f hm

/-- An operation on a store that gives a result. -/
theorem Stores.operate {α : Type} (h : d.Stores s t) (f : Store → α × Store)
    (hw : ∀ s m id w n, f (s.withWord m id w n) = ((f s).1, (f s).2.withWord m id w n))
    (hm : ∀ s memos, f (s.remembering memos) = ((f s).1, (f s).2.remembering memos)) :
    (f t).1 = (f s).1 ∧ d.Stores (f s).2 (f t).2 :=
  ⟨h.view (fun s => (f s).1) (fun _ _ _ _ _ => by rw [hw]) fun _ _ => by rw [hm],
    h.update (fun s => (f s).2) (fun _ _ _ _ _ => by rw [hw]) fun _ _ => by rw [hm]⟩

end Stores

/-! ## States -/

section Beside

variable {d : Redefinition} {i j : Interp} {s t : Store}

/-- What depends on neither places nor counts is the same on both interpreters. -/
theorem Beside.view {α : Type} (h : d.Beside i s j t) (f : Interp → α)
    (hf : ∀ i inputs call previous profile, f (i.placed inputs call previous profile) = f i) :
    f j = f i := by
  rw [h.interp]
  exact hf ..

/-- A change of both interpreters that leaves places and counts as they are. -/
theorem Beside.update (h : d.Beside i s j t) (f : Interp → Interp)
    (hf : ∀ i inputs call previous profile, f (i.placed inputs call previous profile) =
      (f i).placed inputs call previous profile) : d.Beside (f i) s (f j) t := by
  have hi : f i = (f i).placed i.inputs i.call i.previous i.profile := hf i i.inputs i.call _ _
  have hj : f j = (f i).placed j.inputs j.call j.previous j.profile := by
    rw [← hf, ← h.interp]
  refine ⟨?_, ?_, fun hc => ?_, h.store⟩
  · rw [hj]
    rfl
  · rw [hj, hi]
    exact h.depth
  · rw [hj, hi]
    exact h.profile hc

/-- Both interpreters come to places of their own. -/
theorem Beside.place (h : d.Beside i s j t) (call call' previous previous' : Option Location) :
    d.Beside { i with call, previous } s { j with call := call', previous := previous' } t := by
  refine ⟨?_, h.depth, h.profile, h.store⟩
  rw [h.interp]
  rfl

/-- Both interpreters go on counting. -/
theorem Beside.count (h : d.Beside i s j t) (f : Profile → Profile) :
    d.Beside { i with profile := f i.profile } s { j with profile := f j.profile } t := by
  refine ⟨?_, h.depth, fun hc => congrArg f (h.profile hc), h.store⟩
  rw [h.interp]
  rfl

theorem Beside.Stores (h : d.Beside i s j t) {s' t' : Store} (hs : d.Stores s' t') :
    d.Beside i s' j t' :=
  ⟨h.interp, h.depth, h.profile, hs⟩

/-- Faults that the interpreters raise at their own places. -/
theorem Beside.blur_eq (h : d.Beside i s j t) (k : Interp → Fault)
    (hk : ∀ i inputs call previous profile,
      (k (i.placed inputs call previous profile)).blur = (k i).blur) :
    (k i).blur = (k j).blur := by
  rw [h.interp]
  exact (hk ..).symm

end Beside

/-! ## Outcomes -/

section Ends

variable {d : Redefinition} {α β γ δ : Type} {R : α → β → Prop} {S : γ → δ → Prop}
  {x : Outcome α} {y : Outcome β}

theorem Ends.bind {f : α → Interp → Store → Outcome γ} {g : β → Interp → Store → Outcome δ}
    (h : d.Ends R x y)
    (hf : ∀ {a b i j s t}, R a b → d.Beside i s j t → d.Ends S (f a i s) (g b j t)) :
    d.Ends S (x.bind f) (y.bind g) := by
  cases h with
  | ok h hb => exact hf h hb
  | fault h hb => exact .fault h hb
  | exhausted => exact .exhausted
  | hung => exact .hung

theorem Ends.attempt_bind {f : Except Fault α → Interp → Store → Outcome γ}
    {g : Except Fault β → Interp → Store → Outcome δ} (h : d.Ends R x y)
    (hok : ∀ {a b i j s t}, R a b → d.Beside i s j t → d.Ends S (f (.ok a) i s) (g (.ok b) j t))
    (hfault : ∀ {e e' i j s t}, e.blur = e'.blur → d.Beside i s j t →
      d.Ends S (f (.error e) i s) (g (.error e') j t)) :
    d.Ends S (x.attempt.bind f) (y.attempt.bind g) := by
  cases h with
  | ok h hb => exact hok h hb
  | fault h hb => exact hfault h hb
  | exhausted => exact .exhausted
  | hung => exact .hung

end Ends

/-! ## Tasks -/

/-- Tasks that end beside each other from all states beside each other. -/
structure Tasks (d : Redefinition) {α β : Type} (R : α → β → Prop) (x : Task α) (y : Task β) :
    Prop where
  ends : ∀ {i j : Interp} {s t : Store}, d.Beside i s j t →
    d.Ends R (x.finish i s) (y.finish j t)

namespace Tasks

variable {d : Redefinition} {α β γ δ : Type} {R : α → β → Prop} {S : γ → δ → Prop} {x : Task α}
  {y : Task β}

theorem pure {a : α} {b : β} (h : R a b) : d.Tasks R (Pure.pure a) (Pure.pure b) :=
  ⟨fun hb => .ok h hb⟩

theorem throw {f g : Fault} (h : f.blur = g.blur) : d.Tasks R (Task.throw f) (Task.throw g) :=
  ⟨fun hb => .fault h hb⟩

theorem bind {f : α → Task γ} {g : β → Task δ} (h : d.Tasks R x y)
    (hf : ∀ a b, R a b → d.Tasks S (f a) (g b)) : d.Tasks S (x >>= f) (y >>= g) := by
  refine ⟨fun {i j s t} hb => ?_⟩
  rw [Task.finish_bind, Task.finish_bind]
  exact (h.ends hb).bind fun hab hb => (hf _ _ hab).ends hb

/-- `bind` after a task whose faults are values. -/
theorem attempt_bind {f : Except Fault α → Task γ} {g : Except Fault β → Task δ}
    (h : d.Tasks R x y) (hok : ∀ a b, R a b → d.Tasks S (f (.ok a)) (g (.ok b)))
    (hfault : ∀ e e', e.blur = e'.blur → d.Tasks S (f (.error e)) (g (.error e'))) :
    d.Tasks S (x.attempt >>= f) (y.attempt >>= g) := by
  refine ⟨fun {i j s t} hb => ?_⟩
  rw [Task.finish_bind, Task.finish_bind, Task.finish_attempt, Task.finish_attempt]
  exact (h.ends hb).attempt_bind (fun hab hb => (hok _ _ hab).ends hb) fun he hb =>
    (hfault _ _ he).ends hb

theorem call (h : d.Tasks R x y) : d.Tasks R x.call y.call := by
  refine ⟨fun {i j s t} hb => ?_⟩
  rw [Task.finish_call, Task.finish_call]
  exact h.ends hb

theorem callCode (waits : Bool) (h : d.Tasks R x y) :
    d.Tasks R (x.callCode waits) (y.callCode waits) := by
  refine ⟨fun {i j s t} hb => ?_⟩
  rw [Task.finish_callCode, Task.finish_callCode]
  exact h.ends hb

theorem viewing {f : Interp → Store → α} {g : Interp → Store → β}
    (h : ∀ {i j s t}, d.Beside i s j t → R (f i s) (g j t)) :
    d.Tasks R (Task.view f) (Task.view g) := ⟨fun hb => .ok (h hb) hb⟩

/-- A change that leaves places and counts as they are. -/
theorem change (f : Interp → Interp)
    (hf : ∀ i inputs call previous profile, f (i.placed inputs call previous profile) =
      (f i).placed inputs call previous profile) :
    d.Tasks (· = ·) (Task.update f) (Task.update f) := ⟨fun hb => .ok rfl (hb.update f hf)⟩

theorem count (f : Profile → Profile) :
    d.Tasks (· = ·) (Task.update fun i => { i with profile := f i.profile })
      (Task.update fun i => { i with profile := f i.profile }) := ⟨fun hb => .ok rfl (hb.count f)⟩

theorem updateStore (f : Store → Store)
    (hw : ∀ s m id w n, f (s.withWord m id w n) = (f s).withWord m id w n)
    (hm : ∀ s memos, f (s.remembering memos) = (f s).remembering memos) :
    d.Tasks (· = ·) (Task.updateStore f) (Task.updateStore f) :=
  ⟨fun hb => .ok rfl (hb.Stores (hb.store.update f hw hm))⟩

theorem log (level : LogLevel) (scope message : String) :
    d.Tasks (· = ·) (Task.log level scope message) (Task.log level scope message) := by
  refine updateStore (fun s => s.log level scope message) (fun s m id w n => ?_) fun s memos => ?_
  · unfold Store.log
    cases h : logLine? s.level level scope message with
    | none => simp only [show (s.withWord m id w n).level = s.level from rfl, h]
    | some line => simp only [show (s.withWord m id w n).level = s.level from rfl, h]; rfl
  · unfold Store.log
    cases h : logLine? s.level level scope message with
    | none => simp only [show (s.remembering memos).level = s.level from rfl, h]
    | some line => simp only [show (s.remembering memos).level = s.level from rfl, h]; rfl

/-! ### The operand stack -/

theorem push (v : Val) : d.Tasks (· = ·) (Task.push v) (Task.push v) :=
  change (fun i => { i with stack := i.stack.push v }) fun _ _ _ _ _ => rfl

theorem pop : d.Tasks (· = ·) Task.pop Task.pop := by
  refine ⟨fun {i j s t} hb => ?_⟩
  unfold Task.finish Task.pop
  rw [hb.view Interp.stack fun _ _ _ _ _ => rfl]
  cases i.stack.pop? with
  | none => exact .fault (hb.blur_eq Interp.underflow fun _ _ _ _ _ => rfl) hb
  | some p => exact .ok rfl (hb.update (fun i => { i with stack := p.2 }) fun _ _ _ _ _ => rfl)

theorem popN (n : Nat) : d.Tasks (· = ·) (Task.popN n) (Task.popN n) := by
  refine ⟨fun {i j s t} hb => ?_⟩
  unfold Task.finish Task.popN
  rw [hb.view Interp.stack fun _ _ _ _ _ => rfl]
  cases i.stack.popN? n with
  | none => exact .fault (hb.blur_eq Interp.underflow fun _ _ _ _ _ => rfl) hb
  | some p => exact .ok rfl (hb.update (fun i => { i with stack := p.2 }) fun _ _ _ _ _ => rfl)

theorem peek (e : Nested) : d.Tasks (· = ·) (answer e .peek) (answer e .peek) := by
  refine ⟨fun {i j s t} hb => ?_⟩
  unfold Task.finish answer
  dsimp only
  rw [hb.view Interp.stack fun _ _ _ _ _ => rfl]
  cases i.stack.top? with
  | none => exact .fault (hb.blur_eq Interp.underflow fun _ _ _ _ _ => rfl) hb
  | some v => exact .ok rfl hb

theorem takeOptions : d.Tasks (· = ·) takeOptions takeOptions := by
  refine ⟨fun {i j s t} hb => ?_⟩
  unfold Task.finish Wordstack.takeOptions
  rw [hb.view Interp.stack fun _ _ _ _ _ => rfl]
  split
  · rename_i rest _
    exact .ok rfl (hb.update (fun i => { i with stack := ⟨rest⟩ }) fun _ _ _ _ _ => rfl)
  · exact .ok rfl hb

theorem current (operation : String) :
    d.Tasks (· = ·) (Task.current operation) (Task.current operation) := by
  refine ⟨fun {i j s t} hb => ?_⟩
  unfold Task.finish Task.current
  rw [hb.view Interp.current? fun _ _ _ _ _ => rfl]
  cases i.current? with
  | none => exact .fault rfl hb
  | some m => exact .ok rfl hb

/-- The variable of a name, which words of the module make no difference to. -/
theorem variableCell (m : Nat) (name : String) :
    d.Tasks (· = ·) (Task.ofStore fun s => s.variableCell m name .null)
      (Task.ofStore fun s => s.variableCell m name .null) := by
  refine ⟨fun {i j s t} hb => ?_⟩
  have h := hb.store.operate (fun s => s.variableCell m name .null) (fun s k id w n => ?_)
    fun s memos => ?_
  · exact .ok h.1.symm (hb.Stores h.2)
  · have hcell : ((s.withWord k id w n).module m).cell? name = (s.module m).cell? name := by
      show ((s.updateModule k fun x => x.addWord id w).module m).cell? name = _
      rw [Store.module_updateModule]
      split
      · rename_i h
        rw [h.1]
        rfl
      · rfl
    unfold Store.variableCell
    rw [hcell]
    cases (s.module m).cell? name with
    | some cell => rfl
    | none =>
      have hcomm := Store.updateModule_comm (s.addCell .null).2 k m
        (f := fun x => x.addVariable name s.cells.size) (g := fun x => x.addWord id w) fun _ => rfl
      exact Prod.ext rfl (congrArg (fun s : Store => s.giveOut n) hcomm)
  · unfold Store.variableCell
    rw [show (s.remembering memos).module m = s.module m from rfl]
    cases (s.module m).cell? name with
    | some cell => rfl
    | none => rfl

/-! ### Quiet code -/

variable {e : Nested}

/-- Quiet queries are answered the same, but for places. -/
theorem answer {q : Query} (hq : q.isQuiet = true) :
    d.Tasks (Query.Alike true q) (answer e q) (answer e q) := by
  cases q with
  | pop => exact pop
  | peek => exact peek e
  | popN n => exact popN n
  | top => exact viewing fun hb => (hb.view (fun i => i.stack.top?) fun _ _ _ _ _ => rfl).symm
  | push v => exact push v
  | stack => exact viewing fun hb => (hb.view (fun i => i.stack.toList) fun _ _ _ _ _ => rfl).symm
  | setStack vs => exact change (fun i => { i with stack := .ofList vs }) fun _ _ _ _ _ => rfl
  | callLocation => exact viewing fun _ => .inl rfl
  | topInput => exact viewing fun _ => .inl rfl
  | variableNamed name =>
    refine (current "addVariable").bind ?_
    rintro m _ rfl
    refine (variableCell m name).bind ?_
    rintro cell _ rfl
    exact pure rfl
  | fetch cell =>
    exact viewing fun hb =>
      (hb.store.view (fun s => s.fetch cell) (fun _ _ _ _ _ => rfl) fun _ _ => rfl).symm
  | store cell v => exact updateStore (fun s => s.put cell v) (fun _ _ _ _ _ => rfl) fun _ _ => rfl
  | requireScope operation => exact (current operation).bind fun _ _ _ => pure rfl
  | startProfile => exact count Profile.start
  | stopProfile => exact count Profile.stop
  | print line => exact updateStore (fun s => s.print line) (fun _ _ _ _ _ => rfl) fun _ _ => rfl
  | turn => exact call (pure rfl)
  | never => exact ⟨fun _ => .hung⟩
  | _ => cases hq

/-- Blind code that asks quiet queries only. -/
theorem perform {α : Type} {x y : Native α} (h : Native.Alike true x y)
    (hq : x.Asks Query.isQuiet) : d.Tasks (· = ·) (perform e x) (perform e y) := by
  induction h with
  | done a => exact pure rfl
  | fail h => exact throw h
  | ask q _ ih => exact (answer hq.1).bind fun r r' hr => ih r r' hr (hq.2 r)

theorem tryHandlers (name : String) {f g : Fault} (hf : f.blur = g.blur) {handlers : List Handler}
    (hh : ∀ h ∈ handlers, h.Blind ∧ h.Asks Query.isQuiet) :
    d.Tasks (· = ·) (tryHandlers e name f handlers) (tryHandlers e name g handlers) := by
  induction handlers with
  | nil => exact pure rfl
  | cons h rest ih =>
    obtain ⟨hblind, hquiet⟩ := hh h List.mem_cons_self
    have hcode : d.Tasks (· = ·) (Wordstack.perform e (h f)) (Wordstack.perform e (h g)) :=
      perform (hblind f g hf) (hquiet f)
    refine (hcode.callCode false).attempt_bind (fun _ _ _ => pure rfl) fun f' g' hf' => ?_
    dsimp only
    rw [Fault.message_eq_of_blur hf']
    exact (log _ _ _).bind fun _ _ _ => ih fun h hmem => hh h (List.mem_cons_of_mem _ hmem)

theorem recover (label : WordLabel) {f g : Fault} (hf : f.blur = g.blur) {handlers : List Handler}
    (hh : ∀ h ∈ handlers, h.Blind ∧ h.Asks Query.isQuiet) :
    d.Tasks (· = ·) (recover e label handlers f) (recover e label handlers g) := by
  unfold Wordstack.recover
  rw [Fault.isStop_eq_of_blur hf]
  split
  · exact throw hf
  refine (tryHandlers label.name hf hh).call.bind ?_
  rintro handled _ rfl
  split
  · exact pure rfl
  rw [Fault.isEngine_eq_of_blur hf]
  split
  · exact throw hf
  refine (viewing (R := fun _ _ => True) fun _ => trivial).bind fun l l' _ => throw ?_
  simp [Fault.blur, hf, Fault.message_eq_of_blur hf]

theorem guarded (label : WordLabel) {handlers : List Handler}
    (hh : ∀ h ∈ handlers, h.Blind ∧ h.Asks Query.isQuiet) {x y : Task Unit}
    (h : d.Tasks (· = ·) x y) :
    d.Tasks (· = ·) (guarded e label handlers x) (guarded e label handlers y) :=
  h.attempt_bind (fun _ _ _ => pure rfl) fun _ _ hf => (recover label hf hh).call

theorem callNative (inputs : Nat) (hasOptions waits : Bool)
    {code : List Val → Options → Native (Option Val)}
    (hcode : ∀ args options, (code args options).Blind ∧ (code args options).Asks Query.isQuiet) :
    d.Tasks (· = ·) (callNative e inputs hasOptions waits code)
      (callNative e inputs hasOptions waits code) := by
  have hrest : ∀ options : Options, d.Tasks (· = ·)
      (do
        let args ← Task.popN inputs
        let result ← Task.callCode waits (Wordstack.perform e (code args options))
        Task.pushSome result)
      (do
        let args ← Task.popN inputs
        let result ← Task.callCode waits (Wordstack.perform e (code args options))
        Task.pushSome result) := by
    intro options
    refine (popN inputs).bind ?_
    rintro args _ rfl
    obtain ⟨hblind, hquiet⟩ := hcode args options
    refine ((perform hblind hquiet).callCode waits).bind ?_
    rintro result _ rfl
    cases result with
    | some v => exact push v
    | none => exact pure rfl
  unfold Wordstack.callNative
  cases hasOptions with
  | true =>
    refine takeOptions.bind ?_
    rintro options _ rfl
    exact hrest options
  | false => exact hrest .empty

/-! ### Words -/

theorem noteDispatch (w : Word) (l l' : Option Location) :
    d.Tasks (· = ·) (noteDispatch w l) (noteDispatch w l') := by
  refine ⟨fun {i j s t} hb => ?_⟩
  have hcount := (hb.count fun p => if w.isProfiled then p.count w.qualifiedName else p).place
    l l' i.previous j.previous
  exact .ok rfl hcount

theorem openArray :
    d.Tasks (· = ·) (Task.update fun i => { i with marks := i.stack.depth :: i.marks })
      (Task.update fun i => { i with marks := i.stack.depth :: i.marks }) :=
  change (fun i => { i with marks := i.stack.depth :: i.marks }) fun _ _ _ _ _ => rfl

theorem closeArray : d.Tasks (· = ·) closeArray closeArray := by
  unfold Wordstack.closeArray
  refine ⟨fun {i j s t} hb => ?_⟩
  rw [Task.finish_bind, Task.finish_bind, Task.finish_interp, Task.finish_interp, Outcome.bind_ok,
    Outcome.bind_ok, hb.view Interp.marks fun _ _ _ _ _ => rfl,
    hb.view Interp.stack fun _ _ _ _ _ => rfl]
  cases i.marks with
  | nil =>
    exact .fault (hb.blur_eq (fun i => .unmatchedBracket i.topInput "]" i.call)
      fun _ _ _ _ _ => rfl) hb
  | cons mark marks =>
    refine ((change (fun i => { i with marks }) fun _ _ _ _ _ => rfl).bind fun _ _ _ => ?_).ends hb
    split
    · exact throw (hb.blur_eq Interp.underflow fun _ _ _ _ _ => rfl)
    · exact change (fun i => { i with stack := OperandStack.push _ _ }) fun _ _ _ _ _ => rfl

mutual
theorem execute (w : Word) (hb : w.Blind) (hq : w.Asks Query.isQuiet) :
    d.Tasks (· = ·) (execute e w) (execute e w) := by
  cases w with
  | constant _ v => exact push v
  | definition label body =>
    unfold Wordstack.execute
    exact (viewing (R := fun _ _ => True) fun _ => trivial).bind fun l l' _ =>
      executeBody label.name l l' body hb hq
  | native label inputs hasOptions waits code handlers =>
    unfold Wordstack.execute
    exact guarded label (fun h hmem => ⟨hb.2 h hmem, hq.2 h hmem⟩)
      (callNative inputs hasOptions waits fun args options => ⟨hb.1 args options, hq.1 args options⟩)
  | direct label waits code handlers =>
    unfold Wordstack.execute
    exact guarded label (fun h hmem => ⟨hb.2 h hmem, hq.2 h hmem⟩)
      ((perform hb.1 hq.1).callCode waits)
  | openArray => exact openArray
  | closeArray => exact closeArray
  | memo | memoRefresh | memoReload | openModule | closeModule | remote => exact hq.elim

theorem executeBody (name : String) (call call' : Option Location) (body : List (Word × Location))
    (hb : Word.BlindBody body) (hq : Word.BodyAsks Query.isQuiet body) :
    d.Tasks (· = ·) (executeBody e name call body) (executeBody e name call' body) := by
  cases body with
  | nil => exact pure rfl
  | cons entry rest =>
    obtain ⟨w, l⟩ := entry
    unfold Wordstack.executeBody
    have hentry := ((noteDispatch w (some l) (some l)).bind fun _ _ _ =>
      (execute w hb.1 hq.1).call).call
    refine hentry.attempt_bind (fun _ _ _ => executeBody name call call' rest hb.2 hq.2)
      fun f g hf => ?_
    dsimp only
    rw [Fault.isStop_eq_of_blur hf]
    split
    · exact throw hf
    · exact throw (by simp [Fault.blur, hf])
end

end Tasks

/-- Quiet words that are blind are indifferent to every redefinition in every state. -/
theorem indifferent_of_quiet (d : Redefinition) (e : Nested) {w : Word} (hb : w.Blind)
    (hq : w.Asks Query.isQuiet) (i : Interp) (s : Store) : d.Indifferent e w i s := by
  intro j t l l' h
  have htasks : d.Tasks (· = ·) (dispatch e w l) (dispatch e w l') :=
    (Tasks.noteDispatch w l l').bind fun _ _ _ => (Tasks.execute w hb hq).call
  exact htasks.ends h

end Redefinition

end Wordstack
