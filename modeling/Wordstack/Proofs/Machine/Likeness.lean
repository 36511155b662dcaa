import Wordstack.Machine.Task
import Wordstack.Proofs.Word.Blur

/-!
# Interpreters that are alike

- **Runs** (`Interp.beginRun`, `Interp.endRun`, `Interp.failRun`): what the beginning and the end
  of a run do to an interpreter.
- **Changes** (`Interp.Change`): what code does to an interpreter, one change a constructor.
  An `Invariant` survives all of them, and runs.
- **Places** (`Interp.withPlaces`): texts in progress, where the words and tokens stand, and the open
  definition, which says so of its words.
- **Likeness** (`Likeness`): how much two interpreters may differ while they run the same code. Only
  places may differ between interpreters (`Likeness.Interps`), and between stores only the places of
  words and what nobody can see anymore (`Likeness.Stores`): the outcomes of runs of memo words that
  have been taken over.
- **Sound likenesses** (`Likeness.Sound`): if places may differ, so may faults, and all words are
  blind.
-/

namespace Wordstack

namespace Interp

/-- The interpreter with other texts in progress and other places. -/
def moved (i : Interp) (inputs : List String) (call previous : Option Location) : Interp :=
  { i with inputs, call, previous }

/-- What may differ between interpreters that run the same code. -/
structure Places where
  inputs : List String
  call : Option Location
  previous : Option Location
  definition : Option OpenDefinition

/-- The places of an interpreter. -/
def places (i : Interp) : Places := ⟨i.inputs, i.call, i.previous, i.definition⟩

/-- The interpreter with other places. -/
def withPlaces (i : Interp) (p : Places) : Interp :=
  { i with inputs := p.inputs, call := p.call, previous := p.previous, definition := p.definition }

/-- The interpreter with one more text in progress. -/
def beginRun (text : String) (i : Interp) : Interp := { i with inputs := text :: i.inputs }

/-- The interpreter after a run without a fault. -/
def endRun (i : Interp) : Interp := { i with inputs := i.inputs.tail }

/-- The interpreter after a run with a fault. -/
def failRun (saved : Transient) (i : Interp) : Interp :=
  { i.restore saved with inputs := i.inputs.tail }

/-- What an interpreter is compiling. -/
def compileState (i : Interp) : Bool × Bool × Option OpenDefinition :=
  (i.compiling, i.memoDefinition, i.definition)

/-- No definition is open. -/
def Idle (i : Interp) : Prop := i.compileState = (false, false, none)

theorem Idle.compiling {i : Interp} (h : i.Idle) : i.compiling = false := congrArg Prod.fst h

theorem Idle.memo {i : Interp} (h : i.Idle) : i.memoDefinition = false :=
  congrArg (fun c => c.2.1) h

theorem Idle.definition {i : Interp} (h : i.Idle) : i.definition = none :=
  congrArg (fun c => c.2.2) h

/-- A change that code makes to an interpreter. A module that is left was not one of the `floor`
outermost ones in scope, and definitions are read from a text. -/
inductive Change (floor : Nat) (i : Interp) : Interp → Prop
  | stack (v : OperandStack) : Change floor i { i with stack := v }
  | profile (v : Profile) : Change floor i { i with profile := v }
  | registered (v : List (String × Nat)) : Change floor i { i with registered := v }
  | initializing (v : List Nat) : Change floor i { i with initializing := v }
  | pending (v : List Nat) : Change floor i { i with pending := v }
  | marks (v : List Nat) : Change floor i { i with marks := v }
  | place (call previous : Option Location) : Change floor i (i.moved i.inputs call previous)
  | enter (m : Nat) : Change floor i { i with scope := m :: i.scope }
  | leave (h : floor ≤ i.scope.length) : Change floor i { i with scope := i.scope.tail }
  | openDefinition (d : OpenDefinition) (memo : Bool) (hin : i.inputs ≠ [])
      (h : i.compiling = false) :
      Change floor i
        { i with definition := some d, compiling := true, memoDefinition := memo }
  | extendDefinition (f : OpenDefinition → OpenDefinition) (hin : i.inputs ≠ []) :
      Change floor i { i with definition := i.definition.map f }
  | closeDefinition (hin : i.inputs ≠ []) :
      Change floor i { i with compiling := false, memoDefinition := false, definition := none }

end Interp

/-- What survives every change, and runs. A source is not read to its end while a definition is
open, and a run that fails at `k` puts back what it found with `i`. -/
structure Invariant (floor : Nat) (holds : Interp → Prop) : Prop where
  change : ∀ {i j : Interp}, holds i → i.Change floor j → holds j
  beginRun : ∀ {i : Interp} (text : String), holds i → holds (i.beginRun text)
  endRun : ∀ {i : Interp}, holds i → i.compiling = false → holds i.endRun
  failRun : ∀ {i k : Interp}, holds i → holds k → k.inputs.tail = i.inputs →
    holds (k.failRun i.transient)

theorem Invariant.trivial (floor : Nat) : Invariant floor fun _ => True :=
  ⟨fun _ _ => ⟨⟩, fun _ _ => ⟨⟩, fun _ _ => ⟨⟩, fun _ _ _ => ⟨⟩⟩

theorem Invariant.and {floor : Nat} {P Q : Interp → Prop} (hp : Invariant floor P)
    (hq : Invariant floor Q) : Invariant floor fun i => P i ∧ Q i where
  change h hc := ⟨hp.change h.1 hc, hq.change h.2 hc⟩
  beginRun text h := ⟨hp.beginRun text h.1, hq.beginRun text h.2⟩
  endRun h hc := ⟨hp.endRun h.1 hc, hq.endRun h.2 hc⟩
  failRun hi hk h := ⟨hp.failRun hi.1 hk.1 h, hq.failRun hi.2 hk.2 h⟩

/-- Code gives an interpreter no handler of runs. -/
theorem Interp.recovery_invariant (floor : Nat) : Invariant floor fun i => i.recovery = none :=
  ⟨fun h hc => by cases hc <;> exact h, fun _ h => h, fun h _ => h, fun _ h _ => h⟩

/-! ## Stores -/

/-- Memos that callers cannot tell apart: outcomes count only while their run is the current
one. -/
structure Memo.Alike (m n : Memo) : Prop where
  value : m.value = n.value
  current : m.current = n.current
  size : m.outcomes.size = n.outcomes.size
  live : ∀ run, m.current = some run → m.outcome? run = n.outcome? run

theorem Memo.Alike.refl (m : Memo) : m.Alike m := ⟨rfl, rfl, rfl, fun _ _ => rfl⟩

theorem Memo.Alike.symm {m n : Memo} (h : m.Alike n) : n.Alike m :=
  ⟨h.value.symm, h.current.symm, h.size.symm, fun run hr => (h.live run (h.current.trans hr)).symm⟩

/-- All words of all modules are blind. -/
def Store.Blind (s : Store) : Prop := ∀ m ∈ s.modules, m.Blind

/-- The store with other memos. -/
def Store.remembering (s : Store) (memos : Array Memo) : Store := { s with memos }

/-- Stores with the same memos as far as callers can tell, and no other difference. -/
structure Store.Alike (s t : Store) : Prop where
  rest : t = s.remembering t.memos
  size : s.memos.size = t.memos.size
  memo : ∀ cell, (s.memo cell).Alike (t.memo cell)

theorem Store.Alike.refl (s : Store) : s.Alike s := ⟨rfl, rfl, fun _ => .refl _⟩

/-- What most operations on a store leave alone. -/
structure Store.Contents where
  modules : Array Module
  memos : Array Memo
  endpoints : List Endpoint

/-- The contents of a store. -/
def Store.contents (s : Store) : Contents := ⟨s.modules, s.memos, s.endpoints⟩

/-- The store with other contents. -/
def Store.containing (s : Store) (c : Contents) : Store :=
  { s with modules := c.modules, memos := c.memos, endpoints := c.endpoints }

/-- Stores that differ in the places of words, if these may differ, and in what nobody can see
anymore. What other runtimes report names places, so none is served where these may differ. -/
structure Store.AlikeBut (relocates blind : Bool) (s t : Store) : Prop where
  rest : t = s.containing t.contents
  size : s.memos.size = t.memos.size
  memo : ∀ cell, (s.memo cell).Alike (t.memo cell)
  modules : s.modules.map (Module.blur relocates) = t.modules.map (Module.blur relocates)
  endpoints : t.endpoints = s.endpoints
  blind : blind = true → s.Blind
  alone : relocates = true → s.endpoints = []

theorem Store.AlikeBut.symm {relocates blind : Bool} {s t : Store}
    (h : Store.AlikeBut relocates blind s t) : Store.AlikeBut relocates blind t s := by
  refine ⟨?_, h.size.symm, fun cell => (h.memo cell).symm, h.modules.symm, h.endpoints.symm,
    fun hb m hm => ?_, fun hr => h.endpoints.trans (h.alone hr)⟩
  · rw [h.rest]
    rfl
  · have hmem : m.blur relocates ∈ s.modules.map (Module.blur relocates) := by
      rw [h.modules]
      exact Array.mem_map.mpr ⟨m, hm, rfl⟩
    obtain ⟨m', hm', heq⟩ := Array.mem_map.mp hmem
    have hblind : (m'.blur relocates).Blind := Module.blind_blur m' |>.mpr (h.blind hb m' hm')
    rwa [heq, Module.blind_blur] at hblind

/-- The open definition without the locations that it was read from, if these may differ. -/
def OpenDefinition.blur (loose : Bool) (d : OpenDefinition) : OpenDefinition :=
  ⟨d.name, d.location.blur loose, Word.blurBody loose d.body⟩

theorem OpenDefinition.blur_false (d : OpenDefinition) : d.blur false = d := by
  rw [blur, Word.blurBody_false]
  rfl

theorem OpenDefinition.blur_word (loose : Bool) (d : OpenDefinition) :
    d.word.blur loose = (d.blur loose).word := by
  rw [word, Word.blur]
  rfl

theorem OpenDefinition.word_eq_of_blur {loose : Bool} {d d' : OpenDefinition}
    (h : d.blur loose = d'.blur loose) : d.word.blur loose = d'.word.blur loose := by
  rw [blur_word, h, blur_word]

/-! ## Likeness -/

/-- How much two interpreters may differ while they run the same code. -/
structure Likeness where
  /-- The texts in progress on both interpreters, the innermost first. -/
  inputs : List String := []
  /-- More texts that are in progress around these on the first one. -/
  under : List String := []
  /-- More texts that are in progress around these on the second one. -/
  around : List String := []
  /-- The number of pending modules at most. -/
  pending : Nat := 0
  /-- Whether places may differ. -/
  loose : Bool := false
  /-- Whether faults may differ in the places that they name. -/
  blurs : Bool := false
  /-- Whether all words are blind. -/
  blind : Bool := false
  /-- Whether words may differ in their places. No other runtime is served then: what it reports
  names places. -/
  relocates : Bool := false
  /-- The number of modules in scope at least when the run of a module's source is over. -/
  floor : Nat := 0
  /-- What holds of the first interpreter. -/
  holds : Interp → Prop := fun _ => True

namespace Likeness

/-- The texts in progress on the first interpreter. -/
def first (L : Likeness) : List String := L.inputs ++ L.under

/-- The texts in progress on the second interpreter. -/
def second (L : Likeness) : List String := L.inputs ++ L.around

/-- What a likeness says of the first interpreter alone. -/
structure Fits (L : Likeness) (i : Interp) : Prop where
  inputs : i.inputs = L.first
  pending : i.pending.length ≤ L.pending
  holds : L.holds i
  body : L.blind = true → ∀ d ∈ i.definition, Word.BlindBody d.body

/-- Interpreters that differ in places only. -/
structure Interps (L : Likeness) (i j : Interp) : Prop where
  rest : j = i.withPlaces j.places
  inputs : j.inputs = L.second
  fits : L.Fits i
  tight : L.loose = false → j.call = i.call ∧ j.previous = i.previous
  definition : i.definition.map (OpenDefinition.blur L.relocates) =
    j.definition.map (OpenDefinition.blur L.relocates)

/-- Stores that differ in places of words, and in what nobody can see anymore, only. -/
abbrev Stores (L : Likeness) (s t : Store) : Prop := Store.AlikeBut L.relocates L.blind s t

/-- Faults that are equal, or equal but for places. -/
def fault (L : Likeness) (f g : Fault) : Prop := Fault.Alike L.blurs f g

/-- Values in a relation, or faults that are alike. -/
inductive Results {α β : Type} (L : Likeness) (R : α → β → Prop) :
    Except Fault α → Except Fault β → Prop
  | ok {a : α} {b : β} (h : R a b) : Results L R (.ok a) (.ok b)
  | error {f g : Fault} (h : L.fault f g) : Results L R (.error f) (.error g)

/-- A likeness under which code may be run. -/
structure Sound (L : Likeness) : Prop where
  texts : L.loose = false → L.around = L.under
  blurs : L.blurs = L.loose
  blind : L.loose = true → L.blind = true
  relocates : L.relocates = true → L.loose = true
  floor : L.floor ≤ 2
  holds : Invariant L.floor L.holds
  /-- Where places may differ no handler of a run sees its faults. -/
  recovery : L.loose = true → ∀ i, L.holds i → i.recovery = none

/-- What is alike in one way is alike in another one. -/
structure Le (L L' : Likeness) : Prop where
  interps : ∀ {i j : Interp}, L.Interps i j → L'.Interps i j
  stores : ∀ {s t : Store}, L.Stores s t → L'.Stores s t
  fault : ∀ {f g : Fault}, L.fault f g → L'.fault f g

theorem Le.refl (L : Likeness) : L.Le L := ⟨id, id, id⟩

variable {L : Likeness} {i j : Interp} {s t : Store}

/-! ### Faults -/

/-- Where places may not differ words do not differ in them. -/
theorem Sound.relocates_eq_false (hL : L.Sound) (hl : L.loose = false) : L.relocates = false := by
  cases hr : L.relocates with
  | false => rfl
  | true => rw [hL.relocates hr] at hl; cases hl

/-- Where places may not differ the texts in progress do not. -/
theorem Sound.second_eq (hL : L.Sound) (hl : L.loose = false) : L.second = L.first := by
  rw [second, hL.texts hl]
  rfl

/-- Faults that differ in places only, and only if these may differ. -/
theorem Sound.fault (hL : L.Sound) {f g : Fault} (hb : f.blur = g.blur)
    (hl : L.loose = false → f = g) : L.fault f g := by
  unfold Likeness.fault
  rw [hL.blurs]
  cases hloose : L.loose with
  | false => exact hl hloose
  | true => exact hb

/-- Where places may not differ words stand in one place. -/
theorem Sound.location_eq (hL : L.Sound) {l l' : Location}
    (h : l.blur L.relocates = l'.blur L.relocates) (hl : L.loose = false) : l = l' := by
  rwa [hL.relocates_eq_false hl] at h

/-- Where places may not differ faults that are alike are equal. -/
theorem Sound.eq_of_fault (hL : L.Sound) {f g : Fault} (hf : L.fault f g) (hl : L.loose = false) :
    f = g := by
  unfold Likeness.fault at hf
  rwa [hL.blurs, hl] at hf

/-- A fault around another one, at places of their own. -/
theorem Sound.wrap (hL : L.Sound) {f g : Fault} (hf : L.fault f g) {l l' : Option Location}
    (hl : L.loose = false → l = l') (k : Fault → Option Location → Fault)
    (hk : ∀ {f g l l'}, f.blur = g.blur → (k f l).blur = (k g l').blur) :
    L.fault (k f l) (k g l') := by
  refine hL.fault (hk hf.blur_eq) fun hloose => ?_
  rw [hL.eq_of_fault hf hloose, hl hloose]

/-! ### Interpreters -/

namespace Interps

/-- Where places may not differ the interpreters are equal. -/
theorem eq (hi : L.Interps i j) (hL : L.Sound) (hl : L.loose = false) : j = i := by
  obtain ⟨hcall, hprevious⟩ := hi.tight hl
  have hin : j.inputs = i.inputs := by
    rw [hi.inputs, hi.fits.inputs, hL.second_eq hl]
  have hd : j.definition = i.definition := by
    have h := hi.definition
    rw [hL.relocates_eq_false hl, funext OpenDefinition.blur_false, Option.map_id', Option.map_id']
      at h
    exact h.symm
  rw [hi.rest, Interp.places, hin, hcall, hprevious, hd]
  rfl

/-- A definition is open on both interpreters or on none. -/
theorem definitions (hi : L.Interps i j) :
    i.definition = none ∧ j.definition = none ∨
      ∃ d d', i.definition = some d ∧ j.definition = some d' ∧
        d.blur L.relocates = d'.blur L.relocates := by
  have h := hi.definition
  cases hd : i.definition with
  | none =>
    rw [hd, Option.map_none, eq_comm, Option.map_eq_none_iff] at h
    exact .inl ⟨rfl, h⟩
  | some d =>
    rw [hd, Option.map_some, eq_comm, Option.map_eq_some_iff] at h
    obtain ⟨d', hd', hdd⟩ := h
    exact .inr ⟨d, d', rfl, hd', hdd.symm⟩

/-- What does not depend on places is the same on both interpreters. -/
theorem view {α : Type} (hi : L.Interps i j) (f : Interp → α)
    (hf : ∀ i p, f (i.withPlaces p) = f i) : f j = f i := by
  rw [hi.rest]
  exact hf ..

/-- Faults that the interpreters raise at their own places. -/
theorem fault (hi : L.Interps i j) (hL : L.Sound) (k : Interp → Fault)
    (hk : ∀ i p, (k (i.withPlaces p)).blur = (k i).blur) : L.fault (k i) (k j) := by
  refine hL.fault ?_ fun hl => by rw [hi.eq hL hl]
  rw [hi.rest]
  exact (hk ..).symm

/-- A change of both interpreters that leaves places as they are. -/
theorem update {L' : Likeness} (hi : L.Interps i j) (f : Interp → Interp)
    (hf : ∀ i p, f (i.withPlaces p) = (f i).withPlaces p) (hfit : L.Fits i → L'.Fits (f i))
    (hsecond : L'.second = L.second) (hloose : L'.loose = L.loose)
    (hrelocates : L'.relocates = L.relocates) : L'.Interps (f i) (f j) := by
  have hplaces : ∀ i, (f i).places = i.places := fun i => by
    rw [show f i = (f i).withPlaces i.places from hf i i.places]
    rfl
  have hcall : ∀ i, (f i).call = i.call := fun i => congrArg Interp.Places.call (hplaces i)
  have hprevious : ∀ i, (f i).previous = i.previous := fun i =>
    congrArg Interp.Places.previous (hplaces i)
  have hd : ∀ i, (f i).definition = i.definition := fun i =>
    congrArg Interp.Places.definition (hplaces i)
  refine ⟨?_, ?_, hfit hi.fits, fun hl => ?_, ?_⟩
  · rw [hplaces, ← hf, ← hi.rest]
  · exact (congrArg Interp.Places.inputs (hplaces j)).trans (hi.inputs.trans hsecond.symm)
  · rw [hcall, hcall, hprevious, hprevious]
    exact hi.tight (hloose ▸ hl)
  · rw [hd, hd, hrelocates]
    exact hi.definition

/-- A change that leaves texts, pending modules and the open definition as they are. -/
theorem change (hi : L.Interps i j) (hL : L.Sound) (f : Interp → Interp)
    (hf : ∀ i p, f (i.withPlaces p) = (f i).withPlaces p) (hc : i.Change L.floor (f i))
    (hp : (f i).pending = i.pending) : L.Interps (f i) (f j) := by
  have hplaced : f i = (f i).withPlaces i.places := hf i i.places
  refine hi.update f hf (fun hfit => ⟨?_, ?_, hL.holds.change hfit.holds hc, ?_⟩) rfl rfl rfl
  · rw [hplaced]
    exact hfit.inputs
  · rw [hp]
    exact hfit.pending
  · rw [hplaced]
    exact hfit.body

end Interps

theorem first_of_under (h : L.under = []) : L.first = L.inputs := by
  rw [first, h, List.append_nil]

theorem Fits.inputs_eq (h : L.Fits i) (hu : L.under = []) : i.inputs = L.inputs :=
  h.inputs.trans (first_of_under hu)

/-- An interpreter with the same texts in progress on both sides is like itself. -/
theorem Fits.self (h : L.Fits i) (ha : L.second = L.first) : L.Interps i i :=
  ⟨rfl, h.inputs.trans ha.symm, h, fun _ => ⟨rfl, rfl⟩, rfl⟩

/-! ### Stores -/

namespace Stores

theorem refl (hb : L.blind = true → s.Blind) (ha : L.relocates = true → s.endpoints = []) :
    L.Stores s s :=
  ⟨rfl, rfl, fun _ => .refl _, rfl, rfl, hb, ha⟩

theorem of_alike (h : s.Alike t) (hr : L.relocates = false) (hb : L.blind = true → s.Blind) :
    L.Stores s t := by
  refine ⟨?_, h.size, h.memo, ?_, ?_, hb, fun ha => by rw [hr] at ha; cases ha⟩
  · rw [h.rest]
    rfl
  · rw [h.rest]
    rfl
  · rw [h.rest]
    rfl

/-- Where words may not differ stores differ in their memos only. -/
theorem alike (hs : L.Stores s t) (hr : L.relocates = false) : s.Alike t := by
  refine ⟨?_, hs.size, hs.memo⟩
  have hm : t.modules = s.modules := by
    have h := hs.modules
    rw [hr, funext Module.blur_false, Array.map_id', Array.map_id'] at h
    exact h.symm
  rw [hs.rest, Store.contents, hm, hs.endpoints]
  rfl

end Stores

end Likeness

end Wordstack
