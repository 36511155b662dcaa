import Wordstack.Proofs.Machine.Likeness

/-!
# Tasks in lockstep

Two tasks that nobody runs beside are alike when they end alike from interpreters and stores that
are. The first one may also be nested too deeply, whatever becomes of the second.

- **Steps** (`Step.Alike`) and **tasks** (`Task.Alike`): from one likeness to another, with results
  in a relation.
- **Combinators**: one lemma for each operation of the monad, so that the same program made of
  tasks that are alike is alike.
- **Values** (`Step.Yields`): what holds wherever a step ends with a value.
- **Ends** (`Step.Alike.finish`): tasks that are alike have outcomes that are (`Outcome.Alike`).
-/

namespace Wordstack

/-- Steps that end alike when they are resumed at once whenever that is possible. -/
inductive Step.Alike {α β : Type} (L : Likeness) (R : α → β → Prop) : Step α → Step β → Prop
  | exhausted {i : Interp} {s : Store} {y : Step β} : Alike L R (.done .exhausted i s) y
  | ok {a : α} {b : β} {i j : Interp} {s t : Store} (h : R a b) (hi : L.Interps i j)
      (hs : L.Stores s t) : Alike L R (.done (.ok a) i s) (.done (.ok b) j t)
  | fault {f g : Fault} {i j : Interp} {s t : Store} (h : L.fault f g) (hi : L.Interps i j)
      (hs : L.Stores s t) : Alike L R (.done (.fault f) i s) (.done (.fault g) j t)
  | left {w : Wait} {s : Store} {resume : Wake → Store → Step α} {y : Step β}
      (hw : w.isReady true s = true) (h : Alike L R (resume .ready s) y) :
      Alike L R (.pause w s resume) y
  | right {w : Wait} {t : Store} {resume : Wake → Store → Step β} {x : Step α}
      (hw : w.isReady true t = true) (h : Alike L R x (resume .ready t)) :
      Alike L R x (.pause w t resume)
  | stuck {v w : Wait} {s t : Store} {resume : Wake → Store → Step α}
      {resume' : Wake → Store → Step β} (hd : v.deadline = w.deadline)
      (hv : v.isReady true s = false) (hw : w.isReady true t = false) (hs : L.Stores s t)
      (h : Alike L R (resume .expired s) (resume' .expired t)) :
      Alike L R (.pause v s resume) (.pause w t resume')

/-- Tasks that end alike from all interpreters and stores that are alike. -/
structure Task.Alike {α β : Type} (L L' : Likeness) (R : α → β → Prop) (x : Task α) (y : Task β) :
    Prop where
  steps : ∀ {i j : Interp} {s t : Store}, L.Interps i j → L.Stores s t →
    Step.Alike L' R (x i s) (y j t)

/-! ## Values -/

namespace Step

/-- A step ends with values that something holds of, however it is resumed. -/
def Yields {α : Type} (P : α → Interp → Prop) : Step α → Prop
  | done (.ok a) i _ => P a i
  | done _ _ _ => True
  | pause _ _ resume => ∀ wake s, (resume wake s).Yields P

variable {α β : Type} {P : α → Interp → Prop} {Q : β → Interp → Prop} {x : Step α}

theorem Yields.of_forall (h : ∀ a i, P a i) (x : Step α) : x.Yields P := by
  induction x with
  | done r i s =>
    cases r with
    | ok a => exact h a i
    | _ => trivial
  | pause w s resume ih => exact fun wake s => ih wake s

theorem Yields.bind {f : α → Task β} (h : x.Yields P)
    (hf : ∀ a i s, P a i → (f a i s).Yields Q) : (x.bind f).Yields Q := by
  induction x with
  | done r i s =>
    cases r with
    | ok a => exact hf a i s h
    | _ => trivial
  | pause w s resume ih => exact fun wake s => ih wake s (h wake s)

theorem Yields.attempt_bind {f : Except Fault α → Task β} (h : x.Yields P)
    (hok : ∀ a i s, P a i → (f (.ok a) i s).Yields Q)
    (hfault : ∀ e i s, (f (.error e) i s).Yields Q) : (x.attempt.bind f).Yields Q := by
  induction x with
  | done r i s =>
    cases r with
    | ok a => exact hok a i s h
    | fault e => exact hfault e i s
    | exhausted => trivial
  | pause w s resume ih => exact fun wake s => ih wake s (h wake s)

theorem Yields.later (h : x.Yields P) : x.later.Yields P := by
  induction x with
  | done r i s =>
    unfold Step.later
    split
    · intro _ _
      cases r with
      | ok a => exact h
      | _ => trivial
    · exact h
  | pause w s resume ih => exact fun wake s => ih wake s (h wake s)

end Step

namespace Step.Alike

variable {α β γ δ : Type} {L L' : Likeness} {R : α → β → Prop} {S : γ → δ → Prop} {x : Step α}
  {y : Step β}

theorem mono {R' : α → β → Prop} (h : Alike L R x y) (hL : L.Le L')
    (hR : ∀ a b, R a b → R' a b) : Alike L' R' x y := by
  induction h with
  | exhausted => exact .exhausted
  | ok h hi hs => exact .ok (hR _ _ h) (hL.interps hi) (hL.stores hs)
  | fault h hi hs => exact .fault (hL.fault h) (hL.interps hi) (hL.stores hs)
  | left hw _ ih => exact .left hw ih
  | right hw _ ih => exact .right hw ih
  | stuck hd hv hw hs _ ih => exact .stuck hd hv hw (hL.stores hs) ih

/-- Going on with the values, from where only faults have to be as in the end. -/
theorem bind {f : α → Task γ} {g : β → Task δ} (h : Alike L R x y) (hL : L.Le L')
    (hf : ∀ {a b i j s t}, R a b → L.Interps i j → L.Stores s t →
      Alike L' S (f a i s) (g b j t)) : Alike L' S (x.bind f) (y.bind g) := by
  induction h with
  | exhausted => exact .exhausted
  | ok h hi hs => exact hf h hi hs
  | fault h hi hs => exact .fault (hL.fault h) (hL.interps hi) (hL.stores hs)
  | left hw _ ih => exact .left hw ih
  | right hw _ ih => exact .right hw ih
  | stuck hd hv hw hs _ ih => exact .stuck hd hv hw (hL.stores hs) ih

/-- A step whose faults are values goes on from wherever it comes to. -/
theorem attempt_bind {f : Except Fault α → Task γ} {g : Except Fault β → Task δ}
    (h : Alike L R x y) (hs : ∀ {s t : Store}, L.Stores s t → L'.Stores s t)
    (hf : ∀ {a b i j s t}, L.Results R a b → L.Interps i j → L.Stores s t →
      Alike L' S (f a i s) (g b j t)) : Alike L' S (x.attempt.bind f) (y.attempt.bind g) := by
  induction h with
  | exhausted => exact .exhausted
  | ok h hi hs => exact hf (.ok h) hi hs
  | fault h hi hs => exact hf (.error h) hi hs
  | left hw _ ih => exact .left hw ih
  | right hw _ ih => exact .right hw ih
  | stuck hd hv hw hst _ ih => exact .stuck hd hv hw (hs hst) ih

/-- A task on the first side that goes on where the steps have ended. -/
theorem attempt_bind_left {f : Except Fault α → Task γ} {T : γ → β → Prop} (h : Alike L R x y)
    (hs : ∀ {s t : Store}, L.Stores s t → L'.Stores s t)
    (hok : ∀ {a b i j s t}, R a b → L.Interps i j → L.Stores s t →
      Alike L' T (f (.ok a) i s) (.done (.ok b) j t))
    (hfault : ∀ {e g i j s t}, L.fault e g → L.Interps i j → L.Stores s t →
      Alike L' T (f (.error e) i s) (.done (.fault g) j t)) :
    Alike L' T (x.attempt.bind f) y := by
  induction h with
  | exhausted => exact .exhausted
  | ok h hi hs => exact hok h hi hs
  | fault h hi hs => exact hfault h hi hs
  | left hw _ ih => exact .left hw ih
  | right hw _ ih => exact .right hw ih
  | stuck hd hv hw hst _ ih => exact .stuck hd hv hw (hs hst) ih

theorem attempt (h : Alike L R x y) : Alike L (L.Results R) x.attempt y.attempt := by
  induction h with
  | exhausted => exact .exhausted
  | ok h hi hs => exact .ok (.ok h) hi hs
  | fault h hi hs => exact .ok (.error h) hi hs
  | left hw _ ih => exact .left hw ih
  | right hw _ ih => exact .right hw ih
  | stuck hd hv hw hs _ ih => exact .stuck hd hv hw hs ih

/-- What holds of the values of the first step may be used after it. -/
theorem attempt_bind_of_yields {P : α → Interp → Prop} {f : Except Fault α → Task γ}
    {g : Except Fault β → Task δ} (h : Alike L R x y) (hx : x.Yields P)
    (hs : ∀ {s t : Store}, L.Stores s t → L'.Stores s t)
    (hok : ∀ {a b i j s t}, R a b → P a i → L.Interps i j → L.Stores s t →
      Alike L' S (f (.ok a) i s) (g (.ok b) j t))
    (hfault : ∀ {e e' i j s t}, L.fault e e' → L.Interps i j → L.Stores s t →
      Alike L' S (f (.error e) i s) (g (.error e') j t)) :
    Alike L' S (x.attempt.bind f) (y.attempt.bind g) := by
  induction h with
  | exhausted => exact .exhausted
  | ok h hi hs => exact hok h hx hi hs
  | fault h hi hs => exact hfault h hi hs
  | left hw _ ih => exact .left hw (ih (hx _ _))
  | right hw _ ih => exact .right hw (ih hx)
  | stuck hd hv hw hst _ ih => exact .stuck hd hv hw (hs hst) (ih (hx _ _))

/-! ## Turns -/

theorem later_left (h : Alike L R x y) : Alike L R x.later y := by
  induction h with
  | @exhausted i s y =>
    unfold later
    split
    · exact .left rfl .exhausted
    · exact .exhausted
  | ok h hi hs =>
    unfold later
    split
    · exact .left rfl (.ok h hi hs)
    · exact .ok h hi hs
  | fault h hi hs =>
    unfold later
    split
    · exact .left rfl (.fault h hi hs)
    · exact .fault h hi hs
  | left hw _ ih => exact .left hw ih
  | right hw _ ih => exact .right hw ih
  | stuck hd hv hw hs _ ih => exact .stuck hd hv hw hs ih

theorem later_right (h : Alike L R x y) : Alike L R x y.later := by
  induction h with
  | exhausted => exact .exhausted
  | ok h hi hs =>
    unfold later
    split
    · exact .right rfl (.ok h hi hs)
    · exact .ok h hi hs
  | fault h hi hs =>
    unfold later
    split
    · exact .right rfl (.fault h hi hs)
    · exact .fault h hi hs
  | left hw _ ih => exact .left hw ih
  | right hw _ ih => exact .right hw ih
  | stuck hd hv hw hs _ ih => exact .stuck hd hv hw hs ih

theorem later (h : Alike L R x y) : Alike L R x.later y.later := h.later_left.later_right

theorem handedOn_left (h : Alike L R x y) : Alike L R x.handedOn y := by
  cases x with
  | done r i s => exact h.later_left.later_left
  | pause w s resume => exact h.later_left

theorem handedOn_right (h : Alike L R x y) : Alike L R x y.handedOn := by
  cases y with
  | done r i s => exact h.later_right.later_right
  | pause w s resume => exact h.later_right

theorem handedOn (h : Alike L R x y) : Alike L R x.handedOn y.handedOn :=
  h.handedOn_left.handedOn_right

theorem unlessRaised_left (h : Alike L R x y) : Alike L R x.unlessRaised y := by
  unfold Step.unlessRaised
  split
  · exact h
  · exact h.later_left

theorem unlessRaised_right (h : Alike L R x y) : Alike L R x y.unlessRaised := by
  unfold Step.unlessRaised
  split
  · exact h
  · exact h.later_right

theorem unlessRaised (h : Alike L R x y) : Alike L R x.unlessRaised y.unlessRaised :=
  h.unlessRaised_left.unlessRaised_right

/-! ## Deadlines, and other interpreters -/

/-- Both steps miss a deadline, or none of them does. -/
theorem within {i j : Interp} (h : Alike L R x y) (hi : L.Interps i j) (ms : Binary64) :
    Alike L (Option.Rel R) (x.within ms i) (y.within ms j) := by
  induction h with
  | exhausted => exact .exhausted
  | ok h hi hs => exact .ok (.some h) hi hs
  | fault h hi hs => exact .fault h hi hs
  | left hw _ ih => exact .left hw ih
  | right hw _ ih => exact .right hw ih
  | @stuck v w s t resume resume' hd hv hw hs h ih =>
    refine .stuck (by rw [hd]) hv hw hs ?_
    rw [hd]
    by_cases hf : isFirst ms w.deadline
    · rw [if_pos ⟨rfl, hf⟩, if_pos ⟨rfl, hf⟩]
      exact .ok .none hi hs
    · rw [if_neg fun hc => hf hc.2, if_neg fun hc => hf hc.2]
      exact ih

/-- Steps of other interpreters leave those of the callers as they are. -/
theorem restoring {i j : Interp} (h : Alike L R x y) (hi : L'.Interps i j)
    (hs : ∀ {s t : Store}, L.Stores s t → L'.Stores s t)
    (hf : ∀ {f g : Fault}, L.fault f g → L'.fault f g) :
    Alike L' (fun a b => R a.1 b.1 ∧ L.Interps a.2 b.2) (x.restoring i) (y.restoring j) := by
  induction h with
  | exhausted => exact .exhausted
  | ok h hij hst => exact .ok ⟨h, hij⟩ hi (hs hst)
  | fault h _ hst => exact .fault (hf h) hi (hs hst)
  | left hw _ ih => exact .left hw ih
  | right hw _ ih => exact .right hw ih
  | stuck hd hv hw hst _ ih => exact .stuck hd hv hw (hs hst) ih

end Step.Alike

/-! ## Tasks -/

theorem Task.bind_apply {α β : Type} (x : Task α) (f : α → Task β) (i : Interp) (s : Store) :
    (x >>= f) i s = (x i s).bind f := rfl

namespace Task.Alike

variable {α β γ δ : Type} {L L' L'' : Likeness} {R : α → β → Prop} {S : γ → δ → Prop} {x : Task α}
  {y : Task β}

theorem mono {R' : α → β → Prop} (h : Alike L L' R x y) (hL : L'.Le L'')
    (hR : ∀ a b, R a b → R' a b) : Alike L L'' R' x y :=
  ⟨fun hi hs => (h.steps hi hs).mono hL hR⟩

theorem pure {a : α} {b : β} (h : R a b) : Alike L L R (Pure.pure a) (Pure.pure b) :=
  ⟨fun hi hs => .ok h hi hs⟩

theorem throw {f g : Fault} (h : L.fault f g) : Alike L L R (Task.throw f) (Task.throw g) :=
  ⟨fun hi hs => .fault h hi hs⟩

theorem exhausted : Alike L L' R Task.exhausted y := ⟨fun _ _ => .exhausted⟩

theorem bind {f : α → Task γ} {g : β → Task δ} (h : Alike L L R x y)
    (hf : ∀ a b, R a b → Alike L L S (f a) (g b)) : Alike L L S (x >>= f) (y >>= g) :=
  ⟨fun hi hs => (h.steps hi hs).bind (.refl _) fun hab hi hs => (hf _ _ hab).steps hi hs⟩

/-- `bind` after a task that comes to another likeness. -/
theorem bind_to {f : α → Task γ} {g : β → Task δ} (h : Alike L L' R x y) (hL : L'.Le L'')
    (hf : ∀ a b, R a b → Alike L' L'' S (f a) (g b)) : Alike L L'' S (x >>= f) (y >>= g) :=
  ⟨fun hi hs => (h.steps hi hs).bind hL fun hab hi hs => (hf _ _ hab).steps hi hs⟩

theorem attempt (h : Alike L L' R x y) :
    Alike L L' (L'.Results R) x.attempt y.attempt :=
  ⟨fun hi hs => (h.steps hi hs).attempt⟩

/-- `bind` after a task whose faults are values. -/
theorem attempt_bind {f : Except Fault α → Task γ} {g : Except Fault β → Task δ}
    (h : Alike L L' R x y) (hs : ∀ {s t : Store}, L'.Stores s t → L''.Stores s t)
    (hf : ∀ a b, L'.Results R a b → Alike L' L'' S (f a) (g b)) :
    Alike L L'' S (x.attempt >>= f) (y.attempt >>= g) :=
  ⟨fun hi hst => (h.steps hi hst).attempt_bind hs fun hab hi hst => (hf _ _ hab).steps hi hst⟩

theorem lift {a : Except Fault α} {b : Except Fault β} (h : L.Results R a b) :
    Alike L L R (Task.lift a) (Task.lift b) := by
  cases h with
  | ok h => exact pure h
  | error h => exact throw h

theorem call (h : Alike L L' R x y) : Alike L L' R x.call y.call :=
  ⟨fun hi hs => (h.steps hi hs).later⟩

theorem handOn (h : Alike L L' R x y) : Alike L L' R x.handOn y.handOn :=
  ⟨fun hi hs => (h.steps hi hs).handedOn⟩

theorem callCode (waits : Bool) (h : Alike L L' R x y) :
    Alike L L' R (x.callCode waits) (y.callCode waits) := by
  cases waits with
  | true => exact call h
  | false => exact ⟨fun hi hs => (h.steps hi hs).unlessRaised⟩

theorem turn : Alike L L (fun _ _ => True) Task.turn Task.turn := call (pure trivial)

theorem within (h : Alike L L R x y) (ms : Binary64) :
    Alike L L (Option.Rel R) (x.within ms) (y.within ms) := by
  refine ⟨fun hi hs => ?_⟩
  unfold Task.within
  split
  · exact (h.steps hi hs).within hi ms
  · exact (h.steps hi hs).bind (.refl _) fun hab hi hs => .ok (.some hab) hi hs

theorem onOther {i j : Interp} (h : Alike L' L' R x y) (hij : L'.Interps i j)
    (hs : ∀ {s t : Store}, L.Stores s t ↔ L'.Stores s t)
    (hf : ∀ {f g : Fault}, L'.fault f g → L.fault f g) :
    Alike L L (fun a b => R a.1 b.1 ∧ L'.Interps a.2 b.2) (Task.onOther i x)
      (Task.onOther j y) :=
  ⟨fun hi hst => (h.steps hij (hs.mp hst)).restoring hi hs.mpr hf⟩

end Task.Alike

/-! ## Ends -/

/-- Outcomes of tasks that are alike. -/
inductive Outcome.Alike {α β : Type} (L : Likeness) (R : α → β → Prop) :
    Outcome α → Outcome β → Prop
  | exhausted {i : Interp} {s : Store} {y : Outcome β} : Alike L R (.ended .exhausted i s) y
  | ok {a : α} {b : β} {i j : Interp} {s t : Store} (h : R a b) (hi : L.Interps i j)
      (hs : L.Stores s t) : Alike L R (.ended (.ok a) i s) (.ended (.ok b) j t)
  | fault {f g : Fault} {i j : Interp} {s t : Store} (h : L.fault f g) (hi : L.Interps i j)
      (hs : L.Stores s t) : Alike L R (.ended (.fault f) i s) (.ended (.fault g) j t)
  | hung {s t : Store} (hs : L.Stores s t) : Alike L R (.hung s) (.hung t)

theorem Step.Alike.finish {α β : Type} {L : Likeness} {R : α → β → Prop} {x : Step α} {y : Step β}
    (h : Step.Alike L R x y) : Outcome.Alike L R x.finish y.finish := by
  induction h with
  | exhausted => exact .exhausted
  | ok h hi hs => exact .ok h hi hs
  | fault h hi hs => exact .fault h hi hs
  | left hw _ ih => rwa [Step.finish, if_pos hw]
  | @right w t resume x hw _ ih =>
    rw [show (Step.pause w t resume).finish = (resume .ready t).finish by
      rw [Step.finish, if_pos hw]]
    exact ih
  | @stuck v w s t resume resume' hd hv hw hs _ ih =>
    have hv : ¬v.isReady true s = true := by simp [hv]
    have hw : ¬w.isReady true t = true := by simp [hw]
    rw [Step.finish, Step.finish, if_neg hv, if_neg hw, hd]
    split
    · exact ih
    · exact .hung hs

theorem Task.Alike.finish {α β : Type} {L L' : Likeness} {R : α → β → Prop} {x : Task α}
    {y : Task β} {i j : Interp} {s t : Store} (h : Task.Alike L L' R x y) (hi : L.Interps i j)
    (hs : L.Stores s t) : Outcome.Alike L' R (x.finish i s) (y.finish j t) :=
  (h.steps hi hs).finish

end Wordstack
