import Wordstack.Machine.Execute
import Wordstack.Proofs.Value.Paired

/-!
# Coupled tasks

What is to hold between two interpreters, and between two stores, while the same is done on both.
Tasks that nobody runs beside are coupled when they end in the same way from all interpreters and
stores between which it holds, and it holds where they end.

- **Couplings** (`Coupling`).
- **Outcomes** (`Outcome.Coupled`) and **tasks** (`Task.Coupled`), with values in a relation and with
  the same faults.
- **Combinators**: one lemma for each operation of the monad. Turns make no difference.
-/

namespace Wordstack

/-- What is to hold between two interpreters and between two stores. -/
structure Coupling where
  interps : Interp → Interp → Prop
  stores : Store → Store → Prop

/-- Outcomes of the same kind, with values in a relation or with the same fault. -/
inductive Outcome.Coupled (C : Coupling) {α β : Type} (R : α → β → Prop) :
    Outcome α → Outcome β → Prop
  | ok {a : α} {b : β} {i j : Interp} {s t : Store} (h : R a b) (hi : C.interps i j)
      (hs : C.stores s t) : Coupled C R (.ended (.ok a) i s) (.ended (.ok b) j t)
  | fault (f : Fault) {i j : Interp} {s t : Store} (hi : C.interps i j) (hs : C.stores s t) :
    Coupled C R (.ended (.fault f) i s) (.ended (.fault f) j t)
  | exhausted {i j : Interp} {s t : Store} (hs : C.stores s t) :
    Coupled C R (.ended .exhausted i s) (.ended .exhausted j t)
  | hung {s t : Store} (hs : C.stores s t) : Coupled C R (.hung s) (.hung t)

/-- Tasks that end in the same way. -/
structure Task.Coupled (C : Coupling) {α β : Type} (R : α → β → Prop) (x : Task α) (y : Task β) :
    Prop where
  finish : ∀ {i j : Interp} {s t : Store}, C.interps i j → C.stores s t →
    (x.finish i s).Coupled C R (y.finish j t)

variable {α β γ δ : Type} {C : Coupling} {R : α → β → Prop} {S : γ → δ → Prop}

/-! ## Outcomes -/

namespace Outcome.Coupled

variable {x : Outcome α} {y : Outcome β}

theorem bind {f : α → Interp → Store → Outcome γ} {g : β → Interp → Store → Outcome δ}
    (h : x.Coupled C R y)
    (hf : ∀ {a b i j s t}, R a b → C.interps i j → C.stores s t →
      (f a i s).Coupled C S (g b j t)) : (x.bind f).Coupled C S (y.bind g) := by
  cases h with
  | ok h hi hs => exact hf h hi hs
  | fault f hi hs => exact .fault f hi hs
  | exhausted hs => exact .exhausted hs
  | hung hs => exact .hung hs

theorem attempt (h : x.Coupled C R y) : x.attempt.Coupled C (ExceptPaired R) y.attempt := by
  cases h with
  | ok h hi hs => exact .ok (.ok h) hi hs
  | fault f hi hs => exact .ok (.error f) hi hs
  | exhausted hs => exact .exhausted hs
  | hung hs => exact .hung hs

end Outcome.Coupled

/-- The end of a step that gives the caller its own interpreter back. -/
theorem Step.finish_restoring (x : Step α) (i : Interp) :
    (x.restoring i).finish =
      match x.finish with
      | .ended (.ok a) j s => .ended (.ok (a, j)) i s
      | .ended (.fault f) _ s => .ended (.fault f) i s
      | .ended .exhausted _ s => .ended .exhausted i s
      | .hung s => .hung s := by
  induction x with
  | done r j s => cases r <;> rfl
  | pause w s resume ih =>
    simp only [Step.restoring, Step.finish]
    split
    · exact ih _ _
    · split
      · exact ih _ _
      · rfl

/-! ## Tasks -/

namespace Task.Coupled

variable {x : Task α} {y : Task β}

theorem mono {R' : α → β → Prop} (h : x.Coupled C R y) (hR : ∀ a b, R a b → R' a b) :
    x.Coupled C R' y := by
  refine ⟨fun hi hs => ?_⟩
  have hxy := h.finish hi hs
  generalize x.finish _ _ = o, y.finish _ _ = o' at hxy
  cases hxy with
  | ok h hi hs => exact .ok (hR _ _ h) hi hs
  | fault f hi hs => exact .fault f hi hs
  | exhausted hs => exact .exhausted hs
  | hung hs => exact .hung hs

theorem pure {a : α} {b : β} (h : R a b) :
    (Pure.pure a : Task α).Coupled C R (Pure.pure b) :=
  ⟨fun hi hs => .ok h hi hs⟩

theorem throw (f : Fault) : (Task.throw f : Task α).Coupled C R (Task.throw f) :=
  ⟨fun hi hs => .fault f hi hs⟩

theorem exhausted : (Task.exhausted : Task α).Coupled C R Task.exhausted :=
  ⟨fun _ hs => .exhausted hs⟩

theorem bind {f : α → Task γ} {g : β → Task δ} (h : x.Coupled C R y)
    (hf : ∀ a b, R a b → (f a).Coupled C S (g b)) : (x >>= f).Coupled C S (y >>= g) := by
  refine ⟨fun hi hs => ?_⟩
  rw [Task.finish_bind, Task.finish_bind]
  exact (h.finish hi hs).bind fun hab hi hs => (hf _ _ hab).finish hi hs

theorem attempt (h : x.Coupled C R y) : x.attempt.Coupled C (ExceptPaired R) y.attempt := by
  refine ⟨fun hi hs => ?_⟩
  rw [Task.finish_attempt, Task.finish_attempt]
  exact (h.finish hi hs).attempt

theorem lift {a : Except Fault α} {b : Except Fault β} (h : ExceptPaired R a b) :
    (Task.lift a).Coupled C R (Task.lift b) := by
  cases h with
  | ok h => exact pure h
  | error f => exact throw f

theorem view {f : Interp → Store → α} {g : Interp → Store → β}
    (h : ∀ {i j s t}, C.interps i j → C.stores s t → R (f i s) (g j t)) :
    (Task.view f).Coupled C R (Task.view g) :=
  ⟨fun hi hs => .ok (h hi hs) hi hs⟩

theorem interp : Task.interp.Coupled C C.interps Task.interp := view fun hi _ => hi

theorem update {f g : Interp → Interp} (h : ∀ {i j}, C.interps i j → C.interps (f i) (g j)) :
    (Task.update f).Coupled C (· = ·) (Task.update g) :=
  ⟨fun hi hs => .ok rfl (h hi) hs⟩

theorem updateStore {f g : Store → Store} (h : ∀ {s t}, C.stores s t → C.stores (f s) (g t)) :
    (Task.updateStore f).Coupled C (· = ·) (Task.updateStore g) :=
  ⟨fun hi hs => .ok rfl hi (h hs)⟩

theorem ofStore {f : Store → α × Store} {g : Store → β × Store}
    (h : ∀ {s t}, C.stores s t → R (f s).1 (g t).1 ∧ C.stores (f s).2 (g t).2) :
    (Task.ofStore f).Coupled C R (Task.ofStore g) :=
  ⟨fun hi hs => .ok (h hs).1 hi (h hs).2⟩

theorem ofStore? {f : Store → Except Fault (α × Store)} {g : Store → Except Fault (β × Store)}
    (h : ∀ {s t}, C.stores s t →
      ExceptPaired (fun p q => R p.1 q.1 ∧ C.stores p.2 q.2) (f s) (g t)) :
    (Task.ofStore? f).Coupled C R (Task.ofStore? g) := by
  refine ⟨fun {i j s t} hi hs => ?_⟩
  have hst := h hs
  unfold Task.finish Task.ofStore?
  generalize f s = a, g t = b at hst
  cases hst with
  | ok h => exact .ok h.1 hi h.2
  | error f => exact .fault f hi hs

theorem call (h : x.Coupled C R y) : x.call.Coupled C R y.call := by
  refine ⟨fun hi hs => ?_⟩
  rw [Task.finish_call, Task.finish_call]
  exact h.finish hi hs

theorem handOn (h : x.Coupled C R y) : x.handOn.Coupled C R y.handOn := by
  refine ⟨fun hi hs => ?_⟩
  rw [Task.finish_handOn, Task.finish_handOn]
  exact h.finish hi hs

theorem callCode (waits : Bool) (h : x.Coupled C R y) :
    (x.callCode waits).Coupled C R (y.callCode waits) := by
  refine ⟨fun hi hs => ?_⟩
  rw [Task.finish_callCode, Task.finish_callCode]
  exact h.finish hi hs

theorem turn : Task.turn.Coupled C (· = ·) Task.turn := call (pure rfl)

/-- What nobody brings about never happens on either side. -/
theorem never : (Task.wait .never).Coupled C (· = ·) (Task.wait .never) := ⟨fun _ hs => .hung hs⟩

/-- Tasks that are coupled on other interpreters. -/
theorem onOther {D : Coupling} {i j : Interp} (h : x.Coupled D R y) (hij : D.interps i j)
    (hs : ∀ {s t}, C.stores s t ↔ D.stores s t) :
    (Task.onOther i x).Coupled C (fun a b => R a.1 b.1 ∧ D.interps a.2 b.2)
      (Task.onOther j y) := by
  refine ⟨fun {i' j' s t} hi hst => ?_⟩
  have hxy := h.finish hij (hs.mp hst)
  show Outcome.Coupled C _ (Step.restoring i' (x i s)).finish (Step.restoring j' (y j t)).finish
  rw [Step.finish_restoring, Step.finish_restoring]
  change Outcome.Coupled D R (x i s).finish (y j t).finish at hxy
  generalize (x i s).finish = o, (y j t).finish = o' at hxy
  cases hxy with
  | ok h hij hst => exact .ok ⟨h, hij⟩ hi (hs.mpr hst)
  | fault f _ hst => exact .fault f hi (hs.mpr hst)
  | exhausted hst => exact .exhausted (hs.mpr hst)
  | hung hst => exact .hung (hs.mpr hst)

end Task.Coupled

/-! ## Ends -/

/-- Tasks that are coupled settle with the same value, if their values are the same, and between the
stores that they leave it still holds. -/
theorem Task.Coupled.settle {x y : Task α} {i j : Interp} {s t : Store}
    (h : x.Coupled C (· = ·) y) (hi : C.interps i j) (hs : C.stores s t) :
    (x.settle i s).1 = (y.settle j t).1 ∧
      C.stores (x.settle i s).2.2 (y.settle j t).2.2 := by
  have hxy := h.finish hi hs
  unfold Task.settle
  generalize x.finish i s = o, y.finish j t = o' at hxy
  cases hxy with
  | ok h _ hs => exact ⟨congrArg Except.ok h, hs⟩
  | fault f _ hs => exact ⟨rfl, hs⟩
  | exhausted hs => exact ⟨rfl, hs⟩
  | hung hs => exact ⟨rfl, hs⟩

end Wordstack
