import Wordstack.Machine.Task

/-!
# What tasks keep

A guard is what is to hold of an interpreter and of the store that it shares with others. A task
keeps it when it holds wherever the task pauses and ends, as long as others leave the store as the
guard wants it whenever the task is paused.

- **Steps** (`Step.Keeps`) and **tasks** (`Task.Keeps`): the guard, and what holds of the value.
- **Combinators**: one lemma for each operation of the monad.
- **Ends** (`Step.Keeps.finish`): the guard holds where a task alone has come to (`Outcome.Kept`).
-/

namespace Wordstack

/-- What is to hold of an interpreter and of the store. -/
structure Guard where
  interp : Interp → Prop
  store : Store → Prop

/-- Steps at whose ends and pauses the guard holds, and whose values have a property. Nobody sees
the interpreter again of a task that is nested too deeply. -/
inductive Step.Keeps {α : Type} (G : Guard) (P : α → Prop) : Step α → Prop
  | ok {a : α} {i : Interp} {s : Store} (ha : P a) (hi : G.interp i) (hs : G.store s) :
    Keeps G P (.done (.ok a) i s)
  | fault {f : Fault} {i : Interp} {s : Store} (hi : G.interp i) (hs : G.store s) :
    Keeps G P (.done (.fault f) i s)
  | exhausted {i : Interp} {s : Store} (hs : G.store s) : Keeps G P (.done .exhausted i s)
  | pause {w : Wait} {s : Store} {resume : Wake → Store → Step α} (hs : G.store s)
    (h : ∀ wake t, G.store t → Keeps G P (resume wake t)) : Keeps G P (.pause w s resume)

/-- Tasks that keep a guard from all interpreters and stores of which it holds. -/
structure Task.Keeps {α : Type} (G : Guard) (P : α → Prop) (x : Task α) : Prop where
  steps : ∀ {i : Interp} {s : Store}, G.interp i → G.store s → (x i s).Keeps G P

variable {α β : Type} {G : Guard} {P : α → Prop} {Q : β → Prop}

/-! ## Steps -/

namespace Step.Keeps

variable {x : Step α}

theorem mono {P' : α → Prop} (h : x.Keeps G P) (hP : ∀ a, P a → P' a) : x.Keeps G P' := by
  induction h with
  | ok ha hi hs => exact .ok (hP _ ha) hi hs
  | fault hi hs => exact .fault hi hs
  | exhausted hs => exact .exhausted hs
  | pause hs _ ih => exact .pause hs ih

theorem bind {f : α → Task β} (h : x.Keeps G P) (hf : ∀ a, P a → (f a).Keeps G Q) :
    (x.bind f).Keeps G Q := by
  induction h with
  | ok ha hi hs => exact (hf _ ha).steps hi hs
  | fault hi hs => exact .fault hi hs
  | exhausted hs => exact .exhausted hs
  | pause hs _ ih => exact .pause hs ih

theorem attempt (h : x.Keeps G P) : x.attempt.Keeps G fun r => ∀ a, r = .ok a → P a := by
  induction h with
  | ok ha hi hs => exact .ok (fun _ e => Except.ok.inj e ▸ ha) hi hs
  | fault hi hs => exact .ok nofun hi hs
  | exhausted hs => exact .exhausted hs
  | pause hs _ ih => exact .pause hs ih

/-- A step whose faults are values goes on under another guard from wherever it comes to. -/
theorem attempt_bind {H : Interp → Prop} {f : Except Fault α → Task β} (h : x.Keeps G P)
    (hf : ∀ {r i s}, G.interp i → G.store s → (f r i s).Keeps ⟨H, G.store⟩ Q) :
    (x.attempt.bind f).Keeps ⟨H, G.store⟩ Q := by
  induction h with
  | ok _ hi hs => exact hf hi hs
  | fault hi hs => exact hf hi hs
  | exhausted hs => exact .exhausted hs
  | pause hs _ ih => exact .pause hs ih

theorem later (h : x.Keeps G P) : x.later.Keeps G P := by
  induction h with
  | ok ha hi hs =>
    unfold Step.later
    split
    · exact .pause hs fun _ _ ht => .ok ha hi ht
    · exact .ok ha hi hs
  | fault hi hs =>
    unfold Step.later
    split
    · exact .pause hs fun _ _ ht => .fault hi ht
    · exact .fault hi hs
  | exhausted hs =>
    unfold Step.later
    split
    · exact .pause hs fun _ _ ht => .exhausted ht
    · exact .exhausted hs
  | pause hs _ ih => exact .pause hs ih

theorem handedOn (h : x.Keeps G P) : x.handedOn.Keeps G P := by
  cases x with
  | done r i s => exact h.later.later
  | pause w s resume => exact h.later

theorem unlessRaised (h : x.Keeps G P) : x.unlessRaised.Keeps G P := by
  unfold Step.unlessRaised
  split
  · exact h
  · exact h.later

/-- A missed deadline goes on with the interpreter that the task began with. -/
theorem within {i : Interp} (h : x.Keeps G P) (hi : G.interp i) (ms : Binary64) :
    (x.within ms i).Keeps G fun o => ∀ a ∈ o, P a := by
  induction h with
  | ok ha hj hs => exact .ok (fun _ e => Option.some.inj e ▸ ha) hj hs
  | fault hj hs => exact .fault hj hs
  | exhausted hs => exact .exhausted hs
  | pause hs _ ih =>
    refine .pause hs fun wake t ht => ?_
    split
    · exact .ok nofun hi ht
    · exact ih wake t ht

/-- A step of another interpreter, with a guard of its own for that one. -/
theorem restoring {H : Interp → Prop} {i : Interp} (h : x.Keeps G P) (hi : H i) :
    (x.restoring i).Keeps ⟨H, G.store⟩ fun r => P r.1 ∧ G.interp r.2 := by
  induction h with
  | ok ha hj hs => exact .ok ⟨ha, hj⟩ hi hs
  | fault _ hs => exact .fault hi hs
  | exhausted hs => exact .exhausted hs
  | pause hs _ ih => exact .pause hs ih

end Step.Keeps

/-! ## Tasks -/

namespace Task.Keeps

variable {x : Task α}

theorem mono {P' : α → Prop} (h : x.Keeps G P) (hP : ∀ a, P a → P' a) : x.Keeps G P' :=
  ⟨fun hi hs => (h.steps hi hs).mono hP⟩

/-- What a task keeps it keeps whatever is asked of its value. -/
theorem trivial (h : x.Keeps G P) : x.Keeps G fun _ => True := h.mono fun _ _ => ⟨⟩

theorem pure {a : α} (ha : P a) : (Pure.pure a : Task α).Keeps G P := ⟨fun hi hs => .ok ha hi hs⟩

theorem throw {f : Fault} : (Task.throw f).Keeps G P := ⟨fun hi hs => .fault hi hs⟩

theorem exhausted : Task.exhausted.Keeps G P := ⟨fun _ hs => .exhausted hs⟩

theorem bind {f : α → Task β} (h : x.Keeps G P) (hf : ∀ a, P a → (f a).Keeps G Q) :
    (x >>= f).Keeps G Q :=
  ⟨fun hi hs => (h.steps hi hs).bind hf⟩

theorem attempt (h : x.Keeps G P) : x.attempt.Keeps G fun r => ∀ a, r = .ok a → P a :=
  ⟨fun hi hs => (h.steps hi hs).attempt⟩

theorem lift {a : Except Fault α} (h : ∀ b, a = .ok b → P b) : (Task.lift a).Keeps G P := by
  cases a with
  | ok b => exact pure (h b rfl)
  | error f => exact throw

theorem view {f : Interp → Store → α} (h : ∀ {i s}, G.interp i → G.store s → P (f i s)) :
    (Task.view f).Keeps G P :=
  ⟨fun hi hs => .ok (h hi hs) hi hs⟩

/-- A look whose result does not matter. -/
theorem look (f : Interp → Store → α) : (Task.view f).Keeps G fun _ => True := view fun _ _ => ⟨⟩

theorem update {f : Interp → Interp} (h : ∀ {i}, G.interp i → G.interp (f i)) :
    (Task.update f).Keeps G fun _ => True :=
  ⟨fun hi hs => .ok ⟨⟩ (h hi) hs⟩

theorem updateStore {f : Store → Store} (h : ∀ {s}, G.store s → G.store (f s)) :
    (Task.updateStore f).Keeps G fun _ => True :=
  ⟨fun hi hs => .ok ⟨⟩ hi (h hs)⟩

theorem ofStore {f : Store → α × Store} (h : ∀ {s}, G.store s → P (f s).1 ∧ G.store (f s).2) :
    (Task.ofStore f).Keeps G P :=
  ⟨fun hi hs => .ok (h hs).1 hi (h hs).2⟩

theorem ofStore? {f : Store → Except Fault (α × Store)}
    (h : ∀ {s a t}, G.store s → f s = .ok (a, t) → P a ∧ G.store t) :
    (Task.ofStore? f).Keeps G P := by
  refine ⟨fun {i s} hi hs => ?_⟩
  unfold Task.ofStore?
  split
  · rename_i a t hf
    exact .ok (h hs hf).1 hi (h hs hf).2
  · exact .fault hi hs

theorem wait (reason : Reason) : (Task.wait reason).Keeps G fun _ => True :=
  ⟨fun hi hs => .pause hs fun _ _ ht => .ok ⟨⟩ hi ht⟩

theorem call (h : x.Keeps G P) : x.call.Keeps G P := ⟨fun hi hs => (h.steps hi hs).later⟩

theorem handOn (h : x.Keeps G P) : x.handOn.Keeps G P := ⟨fun hi hs => (h.steps hi hs).handedOn⟩

theorem callCode (waits : Bool) (h : x.Keeps G P) : (x.callCode waits).Keeps G P := by
  cases waits with
  | true => exact call h
  | false => exact ⟨fun hi hs => (h.steps hi hs).unlessRaised⟩

theorem turn : Task.turn.Keeps G fun _ => True := call (pure ⟨⟩)

theorem within (h : x.Keeps G P) (ms : Binary64) :
    (x.within ms).Keeps G fun o => ∀ a ∈ o, P a := by
  refine ⟨fun hi hs => ?_⟩
  unfold Task.within
  split
  · exact (h.steps hi hs).within hi ms
  · exact (h.steps hi hs).bind fun a ha => pure fun _ e => Option.some.inj e ▸ ha

theorem onOther {H : Interp → Prop} {j : Interp} (h : x.Keeps G P) (hj : G.interp j) :
    (Task.onOther j x).Keeps ⟨H, G.store⟩ fun r => P r.1 ∧ G.interp r.2 :=
  ⟨fun hi hs => (h.steps hj hs).restoring hi⟩

end Task.Keeps

/-! ## Ends -/

/-- What holds where a task alone has come to. -/
inductive Outcome.Kept (G : Guard) (P : α → Prop) : Outcome α → Prop
  | ok {a : α} {i : Interp} {s : Store} (ha : P a) (hi : G.interp i) (hs : G.store s) :
    Kept G P (.ended (.ok a) i s)
  | fault {f : Fault} {i : Interp} {s : Store} (hi : G.interp i) (hs : G.store s) :
    Kept G P (.ended (.fault f) i s)
  | exhausted {i : Interp} {s : Store} (hs : G.store s) : Kept G P (.ended .exhausted i s)
  | hung {s : Store} (hs : G.store s) : Kept G P (.hung s)

theorem Step.Keeps.finish {x : Step α} (h : x.Keeps G P) : x.finish.Kept G P := by
  induction h with
  | ok ha hi hs => exact .ok ha hi hs
  | fault hi hs => exact .fault hi hs
  | exhausted hs => exact .exhausted hs
  | pause hs _ ih =>
    unfold Step.finish
    split
    · exact ih _ _ hs
    · split
      · exact ih _ _ hs
      · exact .hung hs

theorem Task.Keeps.finish {x : Task α} {i : Interp} {s : Store} (h : x.Keeps G P)
    (hi : G.interp i) (hs : G.store s) : (x.finish i s).Kept G P :=
  (h.steps hi hs).finish

theorem Task.Keeps.of_ok {x : Task α} {a : α} {i j : Interp} {s t : Store} (h : x.Keeps G P)
    (hi : G.interp i) (hs : G.store s) (hx : x.finish i s = .ended (.ok a) j t) :
    P a ∧ G.interp j ∧ G.store t := by
  have hkept := h.finish hi hs
  rw [hx] at hkept
  cases hkept with
  | ok ha hj ht => exact ⟨ha, hj, ht⟩

/-- The guard holds of the store whatever has become of the task. -/
theorem Task.Keeps.settle {x : Task α} {i : Interp} {s : Store} (h : x.Keeps G P)
    (hi : G.interp i) (hs : G.store s) : G.store (x.settle i s).2.2 := by
  have hkept := h.finish hi hs
  unfold Task.settle
  generalize x.finish i s = o at hkept
  cases hkept <;> assumption

end Wordstack
