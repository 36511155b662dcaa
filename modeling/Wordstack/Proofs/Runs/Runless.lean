import Wordstack.Proofs.Bridge.CodeProperty
import Wordstack.Proofs.Machine.Calls
import Wordstack.Proofs.Machine.Unaltered
import Wordstack.Proofs.Runs.Stops

/-!
# Code that runs nothing

Only the tokens of a source open and close definitions. Code that ends though no source can be run
leaves the compile state of its interpreter alone, whatever it asks, other runtimes included.

- **Machines without runs** (`Nested.withoutRuns`): a run ends the whole computation, so code that
  ends with a value there has started none.
- **Queries** (`Runless.finish_answer`), from those that import modules on.
- **Handlers** (`Handler.Completes`): they always end, and run nothing.
-/

namespace Wordstack

/-- The machine on which no source is run. -/
def Nested.withoutRuns (e : Nested) : Nested := { e with run := fun _ _ => Task.exhausted }

theorem Nested.withoutRuns_alike {L : Likeness} (hL : L.Sound) (hl : L.loose = false)
    (hf : L.floor = 0) (depth : Nat) : Nested.Alike L (nested depth).withoutRuns (nested depth) :=
  ⟨fun _ _ _ => .exhausted, (Nested.Alike.exact hL hl hf depth).send⟩

namespace Runless

/-- The guard of code that leaves the compile state `c` alone. What others do to the store meanwhile
does not matter. -/
def guard (s : Store) (c : Bool × Bool × Option OpenDefinition) : Guard :=
  (Territory.everywhere s).around fun i => i.compileState = c

variable {s : Store} {c : Bool × Bool × Option OpenDefinition}

section Tasks

variable {e : Nested}

/-! ## Modules -/

theorem keeps_current (operation : String) :
    (Task.current operation).Keeps (guard s c) fun _ => True := by
  refine ⟨fun hi hs => ?_⟩
  unfold Task.current
  split
  · exact .ok ⟨⟩ hi hs
  · exact .fault hi hs

theorem keeps_updateCurrent (operation : String) {f : Module → Module}
    (hf : ∀ {t x}, (Territory.everywhere s).Grows t x (f x)) :
    (Task.updateCurrent operation f).Keeps (guard s c) fun _ => True :=
  (keeps_current operation).bind fun _ _ => .updateStore fun ht => ht.updateModule ⟨⟩ fun _ => hf

/-- The run of a source ends the computation, also where its faults would be values. -/
theorem keeps_attempt (source : String) (origin : Location) :
    (Task.attempt (Task.call (e.withoutRuns.run source origin))).Keeps (guard s c) fun _ => True :=
  (Task.Keeps.attempt (P := fun _ => True) (.call .exhausted)).trivial

theorem keeps_initializeModule (m : Nat) :
    (initializeModule e.withoutRuns m).Keeps (guard s c) fun _ => True := by
  unfold initializeModule
  refine (Task.Keeps.look _).bind fun skip _ => ?_
  split
  · exact .pure ⟨⟩
  refine (Task.Keeps.look _).bind fun module _ => .bind (.update id) fun _ _ => ?_
  refine (keeps_attempt _ _).bind fun outcome _ => ?_
  cases outcome with
  | ok =>
    refine .bind (.updateStore fun ht => ht.updateModule ⟨⟩ fun _ => .same fun _ => rfl)
      fun _ _ => ?_
    exact .bind (.update id) fun _ _ => .pure ⟨⟩
  | error f => exact .bind (.update id) fun _ _ => .throw

theorem keeps_useModules (imports : List (String × String)) :
    (useModules e.withoutRuns imports).Keeps (guard s c) fun _ => True := by
  induction imports with
  | nil => exact .pure ⟨⟩
  | cons imp rest ih =>
    obtain ⟨name, qualifier⟩ := imp
    unfold useModules
    refine (Task.Keeps.look _).bind fun i _ => ?_
    refine .bind (P := fun _ => True) (.lift fun _ _ => ⟨⟩) fun m _ => ?_
    refine (keeps_initializeModule m).call.bind fun _ _ => ?_
    exact (keeps_updateCurrent _ .same).bind fun _ _ => ih

theorem keeps_importModule (m : Nat) (qualifier : String) :
    (importModule e.withoutRuns m qualifier).Keeps (guard s c) fun _ => True := by
  unfold importModule
  refine .bind (P := fun _ => True) ⟨fun hi hs => .ok ⟨⟩ hi hs⟩ fun _ _ => ?_
  exact (Task.Keeps.look _).bind fun name _ => (keeps_useModules _).call

end Tasks

/-! ## Other runtimes -/

variable {depth : Nat}

theorem keeps_send (url : String) (method : Method) (body : Json) :
    ((nested depth).withoutRuns.send url method body).Keeps (guard s c) fun _ => True := by
  cases depth with
  | zero => exact .exhausted
  | succ depth =>
    exact Territory.keeps_send (Territory.confines_nested _ depth) url method body

theorem keeps_describeRemote (client : Nat) (name : String) :
    (describeRemote (nested depth).withoutRuns client name).Keeps (guard s c) fun _ => True := by
  unfold describeRemote callRemote
  refine .bind (P := fun _ => True) ?_ fun _ _ => .pure ⟨⟩
  refine (Task.Keeps.look _).bind fun client _ => ?_
  split
  · exact .throw
  · exact (keeps_send _ _ _).bind fun _ _ => .lift fun _ _ => ⟨⟩

theorem keeps_discover (r : RemoteModule) :
    (r.discover (nested depth).withoutRuns).Keeps (guard s c) fun _ => True := by
  unfold RemoteModule.discover
  split
  · exact .pure ⟨⟩
  refine (Task.Keeps.look _).bind fun name _ => (keeps_describeRemote _ _).bind fun doc _ => ?_
  refine .bind (.updateStore fun ht => ht.addRemoteWords ⟨⟩ _ _ _) fun _ _ => ?_
  exact .bind (.updateStore fun ht => ht.log _ _ _) fun _ _ => .pure ⟨⟩

theorem keeps_useRemoteModules (client : Nat) (runtime qualifier : String) (names : List String) :
    (useRemoteModules (nested depth).withoutRuns client runtime qualifier names).Keeps (guard s c)
      fun _ => True := by
  induction names with
  | nil => exact .pure ⟨⟩
  | cons name rest ih =>
    unfold useRemoteModules
    refine .bind (P := fun _ => True)
      (.ofStore fun ht => ⟨⟨⟩, (ht.addModule rfl rfl rfl (List.forall_mem_nil _)).2⟩) fun m _ => ?_
    refine (keeps_discover _).bind fun r _ => (keeps_importModule _ _).bind fun _ _ => ih

/-! ## Native code -/

/-- What can be asked besides still queries. -/
theorem keeps_answer {q : Query} (hq : q.isStill = false) :
    (answer (nested depth).withoutRuns q).Keeps (guard s c) fun _ => True := by
  cases q with
  | run source => exact .call .exhausted
  | attempt source =>
    refine (keeps_attempt source _).bind fun outcome _ => ?_
    cases outcome with
    | ok => exact .pure ⟨⟩
    | error f => exact .pure ⟨⟩
  | variableNamed name =>
    refine (keeps_current _).bind fun m _ => ?_
    exact .bind (P := fun _ => True)
      (.ofStore fun ht => ⟨⟨⟩, (ht.variableCell ⟨⟩ name Val.avoids_null).2⟩) fun _ _ => .pure ⟨⟩
  | exportNames names => exact keeps_updateCurrent _ .same
  | useModules imports => exact (keeps_useModules imports).call
  | useRemote pool runtime qualifier names =>
    refine (Task.Keeps.look _).bind fun client _ => ?_
    cases client with
    | some client => exact keeps_useRemoteModules client runtime qualifier names
    | none => exact .throw
  | _ => cases hq

variable {i j : Interp} {t : Store}

theorem finish_answer {q : Query} {r : q.Reply}
    (h : (answer (nested depth).withoutRuns q).finish i s = .ended (.ok r) j t) :
    j.compileState = i.compileState := by
  cases hq : q.isStill with
  | true =>
    obtain ⟨-, ⟨-, hj⟩, -⟩ :=
      (Unaltered.keeps_answer (Unaltered.still_guard i s) hq).of_ok (i := i) (s := s) ⟨rfl, rfl⟩ rfl h
    exact hj
  | false =>
    have hkeeps : (answer (nested depth).withoutRuns q).Keeps (guard s i.compileState) _ :=
      keeps_answer hq
    exact (hkeeps.of_ok rfl (Territory.holds_everywhere s) h).2.1

theorem finish_perform {α : Type} {x : Native α} {a : α}
    (h : (perform (nested depth).withoutRuns x).finish i s = .ended (.ok a) j t) :
    j.compileState = i.compileState := by
  induction x generalizing i s with
  | done => cases h; rfl
  | fail => cases h
  | ask q next ih =>
    rw [finish_perform_ask] at h
    obtain ⟨r, i₁, s₁, hq, h⟩ := Outcome.of_bind_ok h
    exact (ih r h).trans (finish_answer hq)

end Runless

/-! ## Handlers -/

/-- The handler ends without a fault wherever it is called, and does so without any run. -/
def Handler.Completes (e : Nested) (h : Handler) : Prop :=
  ∀ f i s, ∃ j t, (perform e.withoutRuns (h f)).finish i s = .ended (.ok ()) j t

/-- Where sources can be run the handler does what it does without. -/
theorem Handler.Completes.finish {depth : Nat} {h : Handler} (hc : h.Completes (nested depth))
    (f : Fault) (i : Interp) (s : Store) :
    ∃ j t, (perform (nested depth) (h f)).finish i s = .ended (.ok ()) j t ∧
      j.compileState = i.compileState := by
  obtain ⟨j, t, hx⟩ := hc f i s
  have hL := Likeness.keeping_sound i false (Invariant.trivial 0)
  have halike := (Task.Alike.perform hL (Nested.withoutRuns_alike hL rfl rfl depth)
    (.exact (h f))).finish (Likeness.keeping_self i false trivial nofun)
    (Likeness.Stores.refl (s := s) nofun nofun)
  rw [hx] at halike
  obtain ⟨u, hu, -, -⟩ := halike.ended hL rfl Result.ok_ne_exhausted
  exact ⟨j, u, hu, Runless.finish_perform hx⟩

end Wordstack
