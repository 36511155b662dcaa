import Wordstack.Proofs.Machine.Ends
import Wordstack.Proofs.Word.Blind

/-!
# Code that depends on the stack only

Words that look at nothing but the operand stack come to the same wherever they are executed: on
equal stacks they leave equal stacks, or fail with the same fault but for the places that it names.

- **Time** (`Step.Untimed`): steps that wait without deadlines of their own end in time if they end
  at all.
- **Meeting** (`Outcome.Meets`, `Task.Meets`): tasks that come to the same on equal stacks, one rule
  for each way of building a task.
- **Code** (`Native.OnStack`, `Handler.OnStack`) and **words** (`Word.OnStack`), with what executing
  such a word comes to (`Task.Meets.execute`, `Task.Meets.dispatch`).
- **Queries** (`Query.isOnStack`): code that asks for the stack only depends on the stack only.
-/

namespace Wordstack

/-! ## Time -/

/-- A step that has no deadline of its own in any pause, as long as it is resumed as soon as it
can be. -/
inductive Step.Untimed {α : Type} : Step α → Prop
  | done (r : Result α) (i : Interp) (s : Store) : Untimed (.done r i s)
  | pause {w : Wait} {s : Store} {resume : Wake → Store → Step α} (hw : w.deadline = none)
      (h : w.isReady true s = true → Untimed (resume .ready s)) : Untimed (.pause w s resume)

namespace Step.Untimed

variable {α β : Type} {x : Step α}

theorem bind (h : x.Untimed) {f : α → Task β}
    (hf : ∀ a i s, x.finish = .ended (.ok a) i s → (f a i s).Untimed) : (x.bind f).Untimed := by
  induction h with
  | done r i s =>
    cases r with
    | ok a => exact hf a i s rfl
    | fault f => exact .done _ i s
    | exhausted => exact .done _ i s
  | pause hw _ ih =>
    refine .pause hw fun hready => ih hready fun a i s ha => hf a i s ?_
    rwa [Step.finish, if_pos hready]

theorem attempt (h : x.Untimed) : x.attempt.Untimed := by
  induction h with
  | done r i s => cases r <;> exact .done _ i s
  | pause hw _ ih => exact .pause hw ih

theorem restoring (h : x.Untimed) (i : Interp) : (x.restoring i).Untimed := by
  induction h with
  | done r j s => cases r <;> exact .done _ i s
  | pause hw _ ih => exact .pause hw ih

theorem later (h : x.Untimed) : x.later.Untimed := by
  induction h with
  | done r i s =>
    unfold Step.later
    split
    · exact .pause rfl fun _ => .done r i s
    · exact .done r i s
  | pause hw _ ih => exact .pause hw ih

theorem unlessRaised (h : x.Untimed) : x.unlessRaised.Untimed := by
  unfold Step.unlessRaised
  split
  · exact h
  · exact h.later

/-- A step that ends without deadlines of its own ends in time. -/
theorem finish_within (h : x.Untimed) {r : Result α} {j : Interp} {t : Store}
    (hx : x.finish = .ended r j t) (ms : Binary64) (i : Interp) :
    (x.within ms i).finish =
      (Outcome.ended r j t).bind fun a i s => .ended (.ok (some a)) i s := by
  induction h with
  | done r' i s => cases hx; cases r <;> rfl
  | @pause w s resume hw _ ih =>
    rw [Step.finish] at hx
    by_cases hready : w.isReady true s = true
    · rw [if_pos hready] at hx
      have hsame : Wait.isReady ⟨w.reason, some (earlier ms w.deadline)⟩ true s = true := hready
      rw [Step.within, Step.finish, if_pos hsame, if_neg (by simp)]
      exact ih hready hx
    · rw [if_neg hready, hw] at hx
      cases hx

end Step.Untimed

/-- A task that has no deadline of its own. -/
def Task.Untimed {α : Type} (x : Task α) : Prop := ∀ i s, (x i s).Untimed

/-- A task that ends without a deadline of its own keeps every deadline. -/
theorem Task.finish_within_of_untimed {α : Type} {x : Task α} {i j : Interp} {s t : Store}
    {r : Result α} (h : (x i s).Untimed) (hx : x.finish i s = .ended r j t) (ms : Binary64) :
    (Task.within ms x).finish i s =
      (Outcome.ended r j t).bind fun a i s => .ended (.ok (some a)) i s := by
  unfold Task.finish Task.within
  split
  · exact h.finish_within hx ms i
  · rw [Step.finish_bind, show (x i s).finish = .ended r j t from hx]
    rfl

/-! ## Meeting -/

/-- Values in a relation, or faults that differ in places only. -/
inductive Except.Meets {α β : Type} (R : α → β → Prop) : Except Fault α → Except Fault β → Prop
  | ok {a : α} {b : β} (h : R a b) : Meets R (.ok a) (.ok b)
  | error {f g : Fault} (h : f.blur = g.blur) : Meets R (.error f) (.error g)

/-- Outcomes of the same kind with equal stacks, and with values in a relation or with faults that
differ in places only. -/
inductive Outcome.Meets {α β : Type} (R : α → β → Prop) : Outcome α → Outcome β → Prop
  | ok {a : α} {b : β} {i j : Interp} {s t : Store} (h : R a b) (hs : i.stack = j.stack) :
    Meets R (.ended (.ok a) i s) (.ended (.ok b) j t)
  | fault {f g : Fault} {i j : Interp} {s t : Store} (h : f.blur = g.blur)
      (hs : i.stack = j.stack) : Meets R (.ended (.fault f) i s) (.ended (.fault g) j t)
  | exhausted {i j : Interp} {s t : Store} :
    Meets R (.ended .exhausted i s) (.ended .exhausted j t)
  | hung {s t : Store} : Meets R (.hung s) (.hung t)

namespace Outcome.Meets

variable {α β γ δ : Type} {R : α → β → Prop} {S : γ → δ → Prop} {x : Outcome α} {y : Outcome β}

theorem bind {f : α → Interp → Store → Outcome γ} {g : β → Interp → Store → Outcome δ}
    (h : x.Meets R y)
    (hf : ∀ {a b i j s t}, R a b → i.stack = j.stack → (f a i s).Meets S (g b j t)) :
    (x.bind f).Meets S (y.bind g) := by
  cases h with
  | ok h hs => exact hf h hs
  | fault h hs => exact .fault h hs
  | exhausted => exact .exhausted
  | hung => exact .hung

theorem attempt (h : x.Meets R y) : x.attempt.Meets (Except.Meets R) y.attempt := by
  cases h with
  | ok h hs => exact .ok (.ok h) hs
  | fault h hs => exact .ok (.error h) hs
  | exhausted => exact .exhausted
  | hung => exact .hung

/-- What meets an outcome without a fault has none. -/
theorem of_ok {a : α} {i : Interp} {s : Store} (h : (Outcome.ended (.ok a) i s).Meets R y) :
    ∃ b j t, y = .ended (.ok b) j t ∧ R a b ∧ j.stack = i.stack := by
  cases h with
  | ok h hs => exact ⟨_, _, _, rfl, h, hs.symm⟩

/-- What meets a fault is the same fault, but for places. -/
theorem of_fault {f : Fault} {i : Interp} {s : Store}
    (h : (Outcome.ended (.fault f) i s : Outcome α).Meets R y) :
    ∃ g j t, y = .ended (.fault g) j t ∧ f.blur = g.blur ∧ j.stack = i.stack := by
  cases h with
  | fault h hs => exact ⟨_, _, _, rfl, h, hs.symm⟩

end Outcome.Meets

/-- Tasks without deadlines of their own that come to the same on equal stacks. -/
structure Task.Meets {α β : Type} (R : α → β → Prop) (x : Task α) (y : Task β) : Prop where
  left : x.Untimed
  right : y.Untimed
  finish : ∀ {i j : Interp} (s t : Store), i.stack = j.stack →
    (x.finish i s).Meets R (y.finish j t)

namespace Task.Meets

variable {α β γ δ : Type} {R : α → β → Prop} {S : γ → δ → Prop} {x : Task α} {y : Task β}

theorem pure {a : α} {b : β} (h : R a b) : Task.Meets R (Pure.pure a) (Pure.pure b) where
  left i s := .done (.ok a) i s
  right i s := .done (.ok b) i s
  finish _ _ hs := .ok h hs

theorem throw {f g : Fault} (h : f.blur = g.blur) :
    Task.Meets R (Task.throw f) (Task.throw g) where
  left i s := .done (.fault f) i s
  right i s := .done (.fault g) i s
  finish _ _ hs := .fault h hs

theorem bind {f : α → Task γ} {g : β → Task δ} (h : Task.Meets R x y)
    (hf : ∀ a b, R a b → Task.Meets S (f a) (g b)) : Task.Meets S (x >>= f) (y >>= g) where
  left i s := by
    refine (h.left i s).bind fun a j t ha => ?_
    -- a value on one side is met by one on the other
    have hmeet := h.finish (i := i) (j := i) s s rfl
    rw [show x.finish i s = .ended (.ok a) j t from ha] at hmeet
    obtain ⟨b, -, -, -, hab, -⟩ := hmeet.of_ok
    exact (hf a b hab).left j t
  right i s := by
    refine (h.right i s).bind fun b j t hb => ?_
    have hmeet := h.finish (i := i) (j := i) s s rfl
    rw [show y.finish i s = .ended (.ok b) j t from hb] at hmeet
    generalize x.finish i s = o at hmeet
    cases hmeet with
    | ok hab => exact (hf _ b hab).right j t
  finish s t hs := by
    rw [Task.finish_bind, Task.finish_bind]
    exact (h.finish s t hs).bind fun hab hs => (hf _ _ hab).finish _ _ hs

theorem attempt (h : Task.Meets R x y) :
    Task.Meets (Except.Meets R) x.attempt y.attempt where
  left i s := (h.left i s).attempt
  right i s := (h.right i s).attempt
  finish s t hs := by
    rw [Task.finish_attempt, Task.finish_attempt]
    exact (h.finish s t hs).attempt

theorem call (h : Task.Meets R x y) : Task.Meets R x.call y.call where
  left i s := (h.left i s).later
  right i s := (h.right i s).later
  finish s t hs := by
    rw [Task.finish_call, Task.finish_call]
    exact h.finish s t hs

theorem callCode (waits : Bool) (h : Task.Meets R x y) :
    Task.Meets R (x.callCode waits) (y.callCode waits) := by
  cases waits with
  | true => exact h.call
  | false =>
    refine ⟨fun i s => (h.left i s).unlessRaised, fun i s => (h.right i s).unlessRaised,
      fun s t hs => ?_⟩
    rw [Task.finish_callCode, Task.finish_callCode]
    exact h.finish s t hs

theorem view {f : Interp → Store → α} {g : Interp → Store → β}
    (h : ∀ i j s t, i.stack = j.stack → R (f i s) (g j t)) :
    Task.Meets R (Task.view f) (Task.view g) where
  left i s := .done (.ok (f i s)) i s
  right i s := .done (.ok (g i s)) i s
  finish {i j} s t hs := .ok (h i j s t hs) hs

theorem update {f g : Interp → Interp} (h : ∀ i j, i.stack = j.stack → (f i).stack = (g j).stack) :
    Task.Meets (· = ·) (Task.update f) (Task.update g) where
  left i s := .done (.ok ()) (f i) s
  right i s := .done (.ok ()) (g i) s
  finish {i j} _ _ hs := .ok rfl (h i j hs)

theorem updateStore (f g : Store → Store) :
    Task.Meets (· = ·) (Task.updateStore f) (Task.updateStore g) where
  left i s := .done (.ok ()) i (f s)
  right i s := .done (.ok ()) i (g s)
  finish _ _ hs := .ok rfl hs

theorem push (v : Val) : Task.Meets (· = ·) (Task.push v) (Task.push v) :=
  update fun _ _ hs => by rw [hs]

theorem setStack (vs : List Val) : Task.Meets (· = ·) (Task.setStack vs) (Task.setStack vs) :=
  update fun _ _ _ => rfl

/-- A task that takes something off the stack, or fails for want of it. -/
theorem take {α : Type} {x y : Task α} (read : OperandStack → Option (α × OperandStack))
    (hx : ∀ i s, x i s = ((read i.stack).elim (.done (.fault i.underflow) i s) fun p =>
      .done (.ok p.1) { i with stack := p.2 } s))
    (hy : ∀ i s, y i s = ((read i.stack).elim (.done (.fault i.underflow) i s) fun p =>
      .done (.ok p.1) { i with stack := p.2 } s)) : Task.Meets (· = ·) x y where
  left i s := by
    rw [hx]
    cases read i.stack with
    | some p => exact .done _ _ _
    | none => exact .done _ _ _
  right i s := by
    rw [hy]
    cases read i.stack with
    | some p => exact .done _ _ _
    | none => exact .done _ _ _
  finish {i j} s t hs := by
    unfold Task.finish
    rw [hx, hy, ← hs]
    cases read i.stack with
    | some p => exact .ok rfl rfl
    | none => exact .fault rfl hs

theorem pop : Task.Meets (· = ·) Task.pop Task.pop := by
  have h : ∀ i s, Task.pop i s = ((i.stack.pop?).elim (.done (.fault i.underflow) i s) fun p =>
      .done (.ok p.1) { i with stack := p.2 } s) := fun i s => by
    unfold Task.pop
    cases i.stack.pop? <;> rfl
  exact take OperandStack.pop? h h

theorem popN (n : Nat) : Task.Meets (· = ·) (Task.popN n) (Task.popN n) := by
  have h : ∀ i s, Task.popN n i s = ((i.stack.popN? n).elim (.done (.fault i.underflow) i s)
      fun p => .done (.ok p.1) { i with stack := p.2 } s) := fun i s => by
    unfold Task.popN
    cases i.stack.popN? n <;> rfl
  exact take (fun stack => stack.popN? n) h h

theorem peek (e e' : Nested) : Task.Meets (· = ·) (answer e .peek) (answer e' .peek) := by
  have h : ∀ e i s, answer e .peek i s = ((i.stack.top?.map fun v => (v, i.stack)).elim
      (.done (.fault i.underflow) i s) fun p => .done (.ok p.1) { i with stack := p.2 } s) :=
    fun e i s => by
      unfold answer
      dsimp only
      cases i.stack.top? <;> rfl
  exact take (fun stack => stack.top?.map fun v => (v, stack)) (h e) (h e')

theorem takeOptions : Task.Meets (· = ·) takeOptions takeOptions := by
  have huntimed : Task.Untimed Wordstack.takeOptions := fun i s => by
    unfold Wordstack.takeOptions
    split
    · exact .done _ _ _
    · exact .done _ _ _
  refine ⟨huntimed, huntimed, fun {i j} s t hs => ?_⟩
  unfold Task.finish Wordstack.takeOptions
  rw [← hs]
  split
  · exact .ok rfl rfl
  · exact .ok rfl hs

/-- What never happens does so nowhere. -/
theorem never (e e' : Nested) : Task.Meets (· = ·) (answer e .never) (answer e' .never) := by
  have huntimed : ∀ e, Task.Untimed (answer e .never) := fun e i s => .pause rfl nofun
  exact ⟨huntimed e, huntimed e', fun _ _ _ => .hung⟩

end Task.Meets

/-! ## Queries -/

/-- Whether a query is answered by the stack alone. Code can also ask where its word is called, say
something on the console, and wait. -/
def Query.isOnStack : Query → Bool
  | .pop | .peek | .popN _ | .top | .push _ | .stack | .setStack _ | .callLocation | .topInput |
    .print _ | .turn | .never => true
  | _ => false

/-- The answers to a query about the stack are the same on equal stacks. -/
theorem Task.Meets.answer (e e' : Nested) {q : Query} (h : q.isOnStack = true) :
    Task.Meets (q.Alike true) (Wordstack.answer e q) (Wordstack.answer e' q) := by
  cases q with
  | pop => exact .pop
  | peek => exact .peek e e'
  | popN n => exact .popN n
  | top => exact .view fun _ _ _ _ hs => by rw [hs]; rfl
  | push v => exact .push v
  | stack => exact .view fun _ _ _ _ hs => by rw [hs]; rfl
  | setStack vs => exact .setStack vs
  | callLocation => exact .view fun _ _ _ _ _ => .inl rfl
  | topInput => exact .view fun _ _ _ _ _ => .inl rfl
  | print line => exact .updateStore _ _
  | turn => exact .call (.pure rfl)
  | never => exact .never e e'
  | _ => cases h

/-- Code that looks at the stack only and puts places into faults only. -/
theorem Task.Meets.perform (e e' : Nested) {α : Type} {x y : Native α}
    (hx : x.Asks Query.isOnStack) (h : Native.Alike true x y) :
    Task.Meets (· = ·) (perform e x) (perform e' y) := by
  induction h with
  | done a => exact .pure rfl
  | fail h => exact .throw h
  | ask q _ ih => exact (Task.Meets.answer e e' hx.1).bind fun r r' hr => ih r r' hr (hx.2 r)

/-! ## Code and words -/

/-- Code that comes to the same wherever it runs, on equal stacks. -/
def Native.OnStack {α : Type} (x : Native α) : Prop :=
  ∀ e e', Task.Meets (· = ·) (perform e x) (perform e' x)

/-- A handler that comes to the same after the same fault, on equal stacks. -/
def Handler.OnStack (h : Handler) : Prop :=
  ∀ e e' {f g : Fault}, f.blur = g.blur →
    Task.Meets (· = ·) (perform e (h f)) (perform e' (h g))

theorem Native.OnStack.of_asks {α : Type} {x : Native α} (hx : x.Asks Query.isOnStack)
    (hb : x.Blind) : x.OnStack := fun e e' => .perform e e' hx hb

theorem Handler.OnStack.of_asks {h : Handler} (hx : h.Asks Query.isOnStack) (hb : h.Blind) :
    h.OnStack := fun e e' f g hfg => .perform e e' (hx f) (hb f g hfg)

mutual
/-- A word whose code depends on the stack only. Words with a state of their own, words that change
scopes or brackets, and words of other runtimes are left out. -/
def Word.OnStack : Word → Prop
  | .constant .. => True
  | .definition _ body => Word.BodyOnStack body
  | .native _ _ _ _ code handlers =>
    (∀ args options, (code args options).OnStack) ∧ ∀ h ∈ handlers, h.OnStack
  | .direct _ _ code handlers => code.OnStack ∧ ∀ h ∈ handlers, h.OnStack
  | .memo .. | .memoRefresh .. | .memoReload .. | .openArray | .closeArray | .openModule _
  | .closeModule | .remote .. => False

/-- `Word.OnStack` of every entry. -/
def Word.BodyOnStack : List (Word × Location) → Prop
  | [] => True
  | (w, _) :: rest => w.OnStack ∧ Word.BodyOnStack rest
end

namespace Task.Meets

variable {e e' : Nested} {f g : Fault} {label : WordLabel} {handlers : List Handler}

theorem tryHandlers (name : String) (hfg : f.blur = g.blur) (h : ∀ k ∈ handlers, k.OnStack) :
    Task.Meets (· = ·) (Wordstack.tryHandlers e name f handlers)
      (Wordstack.tryHandlers e' name g handlers) := by
  induction handlers with
  | nil => exact .pure rfl
  | cons k rest ih =>
    obtain ⟨hk, hrest⟩ := List.forall_mem_cons.mp h
    unfold Wordstack.tryHandlers
    refine ((hk e e' hfg).callCode false).attempt.bind fun o o' ho => ?_
    cases ho with
    | ok _ => exact .pure rfl
    | error _ => exact (updateStore _ _).bind fun _ _ _ => ih hrest

theorem recover (hfg : f.blur = g.blur) (h : ∀ k ∈ handlers, k.OnStack) :
    Task.Meets (· = ·) (Wordstack.recover e label handlers f)
      (Wordstack.recover e' label handlers g) := by
  unfold Wordstack.recover
  rw [← Fault.isStop_eq_of_blur hfg, ← Fault.isEngine_eq_of_blur hfg,
    ← Fault.message_eq_of_blur hfg]
  split
  · exact .throw hfg
  · refine (tryHandlers label.name hfg h).call.bind fun handled _ hsame => ?_
    subst hsame
    split
    · exact .pure rfl
    · split
      · exact .throw hfg
      · refine (view (R := fun _ _ => True) fun _ _ _ _ _ => ⟨⟩).bind fun _ _ _ => .throw ?_
        simp only [Fault.blur, hfg]

theorem guarded {x y : Task Unit} (hxy : Task.Meets (· = ·) x y) (h : ∀ k ∈ handlers, k.OnStack) :
    Task.Meets (· = ·) (Wordstack.guarded e label handlers x)
      (Wordstack.guarded e' label handlers y) := by
  unfold Wordstack.guarded
  refine hxy.attempt.bind fun o o' ho => ?_
  cases ho with
  | ok _ => exact .pure rfl
  | error hfg => exact (recover hfg h).call

theorem callNative (inputs : Nat) (hasOptions waits : Bool)
    {code : List Val → Options → Native (Option Val)}
    (h : ∀ args options, (code args options).OnStack) :
    Task.Meets (· = ·) (Wordstack.callNative e inputs hasOptions waits code)
      (Wordstack.callNative e' inputs hasOptions waits code) := by
  have hgo : ∀ options, Task.Meets (· = ·)
      (do
        let args ← Task.popN inputs
        let result ← Task.callCode waits (Wordstack.perform e (code args options))
        Task.pushSome result)
      (do
        let args ← Task.popN inputs
        let result ← Task.callCode waits (Wordstack.perform e' (code args options))
        Task.pushSome result) := fun options => by
    refine (popN inputs).bind fun args _ heq => ?_
    subst heq
    refine ((h args options e e').callCode waits).bind fun result _ heq => ?_
    subst heq
    cases result with
    | some v => exact push v
    | none => exact .pure rfl
  unfold Wordstack.callNative
  cases hasOptions with
  | true => exact takeOptions.bind fun options _ heq => heq ▸ hgo options
  | false => exact hgo .empty

theorem noteDispatch (w : Word) (location location' : Option Location) :
    Task.Meets (· = ·) (Wordstack.noteDispatch w location) (Wordstack.noteDispatch w location') :=
  update fun _ _ hs => hs

mutual
/-- Executing a word that depends on the stack only comes to the same on equal stacks. -/
theorem execute (e e' : Nested) (w : Word) (h : w.OnStack) :
    Task.Meets (· = ·) (Wordstack.execute e w) (Wordstack.execute e' w) := by
  cases w with
  | constant _ v =>
    rw [Wordstack.execute, Wordstack.execute]
    exact push v
  | definition label body =>
    rw [Wordstack.execute, Wordstack.execute]
    refine (view (R := fun _ _ => True) fun _ _ _ _ _ => ⟨⟩).bind fun call call' _ => ?_
    exact executeBody e e' label.name call call' body (by rwa [Word.OnStack] at h)
  | native label inputs hasOptions waits code handlers =>
    rw [Word.OnStack] at h
    rw [Wordstack.execute, Wordstack.execute]
    exact (callNative inputs hasOptions waits h.1).guarded h.2
  | direct label waits code handlers =>
    rw [Word.OnStack] at h
    rw [Wordstack.execute, Wordstack.execute]
    exact ((h.1 e e').callCode waits).guarded h.2
  | memo | memoRefresh | memoReload | openArray | closeArray | openModule | closeModule | remote =>
    rw [Word.OnStack] at h
    exact h.elim

theorem executeBody (e e' : Nested) (name : String) (call call' : Option Location)
    (body : List (Word × Location)) (h : Word.BodyOnStack body) :
    Task.Meets (· = ·) (Wordstack.executeBody e name call body)
      (Wordstack.executeBody e' name call' body) := by
  match body, h with
  | [], _ =>
    rw [Wordstack.executeBody, Wordstack.executeBody]
    exact .pure rfl
  | (w, location) :: rest, h =>
    rw [Word.BodyOnStack] at h
    rw [Wordstack.executeBody, Wordstack.executeBody]
    refine ((noteDispatch w (some location) (some location)).bind fun _ _ _ =>
      (execute e e' w h.1).call).call.attempt.bind fun o o' ho => ?_
    cases ho with
    | ok _ => exact executeBody e e' name call call' rest h.2
    | error hfg =>
      dsimp only
      rw [← Fault.isStop_eq_of_blur hfg]
      split
      · exact .throw hfg
      · exact .throw (by simp only [Fault.blur, hfg])
end

theorem dispatch (e e' : Nested) {w : Word} (h : w.OnStack) (location location' : Option Location) :
    Task.Meets (· = ·) (Wordstack.dispatch e w location) (Wordstack.dispatch e' w location') :=
  (noteDispatch w location location').bind fun _ _ _ => (execute e e' w h).call

end Task.Meets

end Wordstack
