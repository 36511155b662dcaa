import Wordstack.Proofs.Machine.Lockstep
import Wordstack.Proofs.Machine.Stores

/-!
# Primitive tasks in lockstep

Tasks that look at the interpreter or the store, or change one of them, without pausing.

- **Looks** (`Task.Alike.view`, `Task.Alike.interp_bind`) and **changes** (`Task.Alike.change`,
  `Task.Alike.updateStore`, `Task.Alike.ofStore`).
- **The operand stack** (`Task.Alike.push`, `Task.Alike.pop`, …), **modules** and **logs**.
-/

namespace Wordstack

namespace Task.Alike

variable {α β γ δ : Type} {L L' : Likeness} {R : α → β → Prop} {S : γ → δ → Prop}

/-! ## Looks and changes -/

theorem viewing {f : Interp → Store → α} {g : Interp → Store → β}
    (h : ∀ {i j s t}, L.Interps i j → L.Stores s t → R (f i s) (g j t)) :
    Alike L L R (Task.view f) (Task.view g) :=
  ⟨fun hi hs => .ok (h hi hs) hi hs⟩

/-- A look at what does not depend on places, modules and memos. -/
theorem view {f : Interp → Store → α}
    (hf : ∀ i s p c, f (i.withPlaces p) (s.containing c) = f i s) :
    Alike L L (· = ·) (Task.view f) (Task.view f) := by
  refine viewing fun hi hs => ?_
  rw [hi.rest, hs.rest]
  exact (hf ..).symm

/-- A look at the name of a module. -/
theorem viewName (m : Nat) : Alike L L (· = ·) (Task.view fun _ s => (s.module m).name)
    (Task.view fun _ s => (s.module m).name) :=
  viewing fun _ hs => (hs.viewModule m Module.name fun _ => rfl).symm

/-- A task that begins with a look at its interpreter. -/
theorem interp_bind {f : Interp → Task γ} {g : Interp → Task δ}
    (h : ∀ {i j s t}, L.Interps i j → L.Stores s t → Step.Alike L' S (f i i s) (g j j t)) :
    Alike L L' S (Task.interp >>= f) (Task.interp >>= g) :=
  ⟨fun hi hs => h hi hs⟩

/-- A change of the interpreter that has nothing to do with places, pending modules and the open
definition. -/
theorem change (hL : L.Sound) (f : Interp → Interp)
    (hf : ∀ i p, f (i.withPlaces p) = (f i).withPlaces p) (hc : ∀ i : Interp, i.Change L.floor (f i))
    (hp : ∀ i, (f i).pending = i.pending) :
    Alike L L (· = ·) (Task.update f) (Task.update f) :=
  ⟨fun hi hs => .ok rfl (hi.change hL f hf (hc _) (hp _)) hs⟩

theorem updateStore {f : Store → Store} (h : ∀ {s t}, L.Stores s t → L.Stores (f s) (f t)) :
    Alike L L (· = ·) (Task.updateStore f) (Task.updateStore f) :=
  ⟨fun hi hs => .ok rfl hi (h hs)⟩

theorem ofStore {f : Store → α × Store}
    (h : ∀ {s t}, L.Stores s t → (f t).1 = (f s).1 ∧ L.Stores (f s).2 (f t).2) :
    Alike L L (· = ·) (Task.ofStore f) (Task.ofStore f) :=
  ⟨fun hi hs => .ok (h hs).1.symm hi (h hs).2⟩

theorem log (level : LogLevel) (scope message : String) :
    Alike L L (· = ·) (Task.log level scope message) (Task.log level scope message) :=
  updateStore fun hs => hs.log level scope message

/-- The value of an outcome that is there already. -/
theorem lift_same (x : Except Fault α) : Alike L L (· = ·) (Task.lift x) (Task.lift x) := by
  cases x with
  | ok a => exact pure rfl
  | error f => exact throw (.refl _ f)

/-! ## The operand stack -/

theorem push (hL : L.Sound) (v : Val) : Alike L L (· = ·) (Task.push v) (Task.push v) :=
  change hL (fun i => { i with stack := i.stack.push v }) (fun _ _ => rfl)
    (fun i => .stack (i.stack.push v)) fun _ => rfl

theorem setStack (hL : L.Sound) (vs : List Val) :
    Alike L L (· = ·) (Task.setStack vs) (Task.setStack vs) :=
  change hL (fun i => { i with stack := .ofList vs }) (fun _ _ => rfl)
    (fun _ => .stack (.ofList vs)) fun _ => rfl

theorem stack : Alike L L (· = ·) Task.stack Task.stack := view fun _ _ _ _ => rfl

theorem pop (hL : L.Sound) : Alike L L (· = ·) Task.pop Task.pop := by
  refine ⟨fun {i j s t} hi hs => ?_⟩
  unfold Task.pop
  rw [hi.view Interp.stack fun _ _ => rfl]
  cases i.stack.pop? with
  | none => exact .fault (hi.fault hL Interp.underflow fun _ _ => rfl) hi hs
  | some p =>
    exact .ok rfl (hi.change hL (fun i => { i with stack := p.2 }) (fun _ _ => rfl)
      (.stack p.2) rfl) hs

theorem peek (hL : L.Sound) (e e' : Nested) :
    Alike L L (· = ·) (answer e .peek) (answer e' .peek) := by
  refine ⟨fun {i j s t} hi hs => ?_⟩
  simp only [answer]
  rw [hi.view Interp.stack fun _ _ => rfl]
  cases i.stack.top? with
  | none => exact .fault (hi.fault hL Interp.underflow fun _ _ => rfl) hi hs
  | some v => exact .ok rfl hi hs

theorem popN (hL : L.Sound) (n : Nat) : Alike L L (· = ·) (Task.popN n) (Task.popN n) := by
  refine ⟨fun {i j s t} hi hs => ?_⟩
  unfold Task.popN
  rw [hi.view Interp.stack fun _ _ => rfl]
  cases i.stack.popN? n with
  | none => exact .fault (hi.fault hL Interp.underflow fun _ _ => rfl) hi hs
  | some p =>
    exact .ok rfl (hi.change hL (fun i => { i with stack := p.2 }) (fun _ _ => rfl)
      (.stack p.2) rfl) hs

theorem takeOptions (hL : L.Sound) : Alike L L (· = ·) takeOptions takeOptions := by
  refine ⟨fun {i j s t} hi hs => ?_⟩
  unfold Wordstack.takeOptions
  rw [hi.view Interp.stack fun _ _ => rfl]
  split
  · rename_i rest _
    exact .ok rfl (hi.change hL (fun i => { i with stack := ⟨rest⟩ }) (fun _ _ => rfl)
      (.stack ⟨rest⟩) rfl) hs
  · exact .ok rfl hi hs

/-! ## Modules -/

theorem current (operation : String) :
    Alike L L (· = ·) (Task.current operation) (Task.current operation) := by
  refine ⟨fun {i j s t} hi hs => ?_⟩
  unfold Task.current
  rw [hi.view Interp.current? fun _ _ => rfl]
  cases i.current? with
  | none => exact .fault (.refl _ _) hi hs
  | some m => exact .ok rfl hi hs

theorem updateCurrent (operation : String) {f : Module → Module}
    (hf : ∀ x, (f x).blur L.relocates = f (x.blur L.relocates))
    (hb : L.blind = true → ∀ m, m.Blind → (f m).Blind) :
    Alike L L (· = ·) (Task.updateCurrent operation f) (Task.updateCurrent operation f) := by
  refine (current operation).bind ?_
  rintro m _ rfl
  exact updateStore fun hs => hs.updateModule m hf hb

theorem register (hL : L.Sound) (m : Nat) :
    Alike L L (· = ·) (Task.register m) (Task.register m) := by
  refine ⟨fun {i j s t} hi hs => ?_⟩
  have hn : (t.module m).name = (s.module m).name := hs.viewModule m Module.name fun _ => rfl
  unfold Task.register Interp.register
  rw [hn]
  exact .ok rfl (hi.change hL
    (fun i => { i with registered := Json.setField i.registered (s.module m).name m })
    (fun _ _ => rfl) (.registered _) rfl) hs

/-- The module of a name, or a fault at the place of the caller. -/
theorem findModule (hL : L.Sound) {i j : Interp} (hi : L.Interps i j) (name : String) :
    L.Results (· = ·) (i.findModule name) (j.findModule name) := by
  unfold Interp.findModule
  rw [hi.view Interp.registered fun _ _ => rfl, hi.view Interp.registry fun _ _ => rfl]
  split
  · exact .ok rfl
  · exact .error (hi.fault hL (fun i => .unknownModule i.topInput name i.call) fun _ _ => rfl)

/-- The word of a name, the same on both sides but for its places. The two interpreters may ask from
different locations where faults may differ in them. -/
theorem findWord (hL : L.Sound) {i j : Interp} {s t : Store} (hi : L.Interps i j)
    (hs : L.Stores s t) (name : String) {l l' : Option Location}
    (hl : L.loose = false → l = l') :
    L.Results (fun v w => v.blur L.relocates = w.blur L.relocates ∧ (L.blind = true → v.Blind))
      (i.findWord s name l) (j.findWord t name l') := by
  have hfind : ∀ s : Store, (i.scope.findSome? fun m => findIn? s.modules m name).map
      (Word.blur L.relocates) =
        i.scope.findSome? fun m => findIn? (s.modules.map (Module.blur L.relocates)) m name := by
    intro s
    rw [List.map_findSome?]
    exact congrArg (List.findSome? · _) (funext fun m => (findIn?_blur _ m name).symm)
  have hw : (i.scope.findSome? fun m => findIn? s.modules m name).map (Word.blur L.relocates) =
      (i.scope.findSome? fun m => findIn? t.modules m name).map (Word.blur L.relocates) := by
    rw [hfind, hfind, hs.modules]
  have hc : j.scopeChain t = i.scopeChain s := by
    unfold Interp.scopeChain
    rw [hi.view Interp.scope fun _ _ => rfl]
    refine List.map_congr_left fun m _ => ?_
    simp only [hs.viewModule m Module.name fun _ => rfl]
  unfold Interp.findWord
  rw [hi.view Interp.scope fun _ _ => rfl, hc]
  cases hv : i.scope.findSome? fun m => findIn? s.modules m name with
  | none =>
    rw [hv, Option.map_none, eq_comm, Option.map_eq_none_iff] at hw
    rw [hw]
    refine .error (hL.fault rfl fun hloose => ?_)
    rw [hi.eq hL hloose, hl hloose]
  | some v =>
    rw [hv, Option.map_some, eq_comm, Option.map_eq_some_iff] at hw
    obtain ⟨w, hw, hvw⟩ := hw
    rw [hw]
    refine .ok ⟨hvw.symm, fun hb => ?_⟩
    obtain ⟨m, -, hm⟩ := List.exists_of_findSome?_eq_some hv
    exact of_findIn? (hs.blind hb) (fun _ _ _ _ => by simp [Word.Blind]) hm

/-- What a text stands for. -/
theorem resolve (hL : L.Sound) {i j : Interp} {s t : Store} (hi : L.Interps i j)
    (hs : L.Stores s t) (text : String) {l l' : Option Location}
    (hl : L.loose = false → l = l') :
    L.Results (fun v w => v.blur L.relocates = w.blur L.relocates ∧ (L.blind = true → v.Blind))
      (i.resolve s text l) (j.resolve t text l') := by
  unfold Interp.resolve
  rw [hi.view (fun i => i.literal? text) fun _ _ => rfl]
  split
  · exact .ok ⟨rfl, fun _ => by simp [Word.Blind]⟩
  · exact findWord hL hi hs text hl

end Task.Alike

end Wordstack
