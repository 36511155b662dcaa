import Wordstack.Proofs.Machine.MemoScenes

/-!
# Runs of a memo word that callers share

However the calls of a memo word and of its companions take turns, they share the runs of its body.

- **Ends** (`Step.Reaches`): a call that is on its way to an end which nobody can change.
- **Calls** (`MemoCall.Stands`): what the stage of a call says about its value and its end.
- **Sharing** (`MemoScene.Shares`, `memo_calls_share_runs`): there is one run at a time, whoever joins
  it gets its outcome, callers leave exactly what they are given, and failed runs change nothing.
-/

namespace Wordstack

/-! ## Ends -/

/-- A task that has ended as `f` says, or will: what it waits for is there while `P` holds of the
store, however it is resumed then. -/
inductive Step.Reaches (P : Store → Prop) (f : Store → Step Unit) : Step Unit → Prop
  | ended (s : Store) : Reaches P f (f s)
  | pause {w : Wait} {s : Store} {resume : Wake → Store → Step Unit}
    (hready : ∀ t, P t → w.isReady false t = true)
    (h : ∀ wake idle t, P t → wake.IsDue w idle t → Reaches P f (resume wake t)) :
    Reaches P f (.pause w s resume)

section Ends

variable {cell run : Nat} {use : MemoUse} {start i j : Interp} {P : Store → Prop} {s : Store}
  {o : Except Fault Val} {x : Step Unit} {r : Result Unit}

/-- A turn ends by itself. -/
theorem Step.Reaches.turn {f : Store → Step Unit} {s : Store} {resume : Wake → Store → Step Unit}
    (h : ∀ wake t, P t → (resume wake t).Reaches P f) :
    (Step.pause { reason := .turn } s resume).Reaches P f :=
  .pause (fun _ _ => rfl) fun wake _ t ht _ => h wake t ht

theorem Step.Reaches.afterTurn {f g : Store → Step Unit} (hs : P s)
    (h : ∀ t, P t → (g t).Reaches P f) : (Step.afterTurn s g).Reaches P f := by
  unfold Step.afterTurn
  split
  · exact .turn fun _ t ht => h t ht
  · exact h s hs

theorem MemoUse.Concludes.reaches (h : use.Concludes o i x) : x.Reaches P (use.conclude o i) := by
  cases h with
  | turn s => exact .turn fun _ t _ => .ended t
  | ended s => exact .ended s

theorem MemoUse.reaches_hand : (use.hand o i s).Reaches P (use.conclude o i) :=
  concludes_hand.reaches

/-- Nobody keeps a call from closing its run. -/
theorem MemoUse.reaches_gather (hr : r.outcome? i = some (o, j)) :
    (use.gather cell r i s).Reaches (fun _ => True) (use.conclude o j) := by
  unfold gather
  rw [hr]
  exact .afterTurn trivial fun _ _ => reaches_hand

theorem MemoUse.reaches_fetch (ho : (s.memo cell).outcome? run = some o) :
    (use.fetch cell run i s).Reaches P (use.conclude o i) := by
  unfold fetch
  rw [ho]
  exact reaches_hand

theorem MemoUse.reaches_await (ho : (s.memo cell).outcome? run = some o) :
    (use.await cell run i s).Reaches (fun t => (t.memo cell).outcome? run = some o)
      (use.conclude o i) := by
  unfold await
  rw [ho]
  exact .afterTurn ho fun _ ht => reaches_fetch ht

theorem MemoUse.Concludes.of_ended (h : use.Concludes o i x) (hx : x.wait? = none) :
    ∃ s, x = use.conclude o i s := by
  cases h with
  | turn => cases hx
  | ended s => exact ⟨s, rfl⟩

end Ends

/-! ## Calls -/

namespace MemoCall

/-- The run of the body that the call has begun is in progress. -/
def IsRunning (c : MemoCall) : Prop := ∃ w s resume, c.body = some (.pause w s resume)

/-- What the call is given: the value that was there, or the outcome of its run. -/
def given? (c : MemoCall) (m : Memo) : Option (Except Fault Val) :=
  match c.entry with
  | .cached v => some (.ok v)
  | .begun run | .joined run => m.outcome? run

/-- The interpreter of the caller without the value: as it was when it made the call, or as a run of
its own has left it. -/
def base (c : MemoCall) : Interp :=
  match c.body with
  | some (.done r i _) => ((r.outcome? i).map Prod.snd).getD i
  | _ => c.interp

/-- The call is in progress. So is one that is nested too deeply, which nobody sees again. -/
def IsOpen (c : MemoCall) : Prop :=
  c.step.wait?.isSome = true ∨ ∃ i s, c.step = .done .exhausted i s

namespace Stands

variable {cell run : Nat} {c : MemoCall} {m : Memo} {o : Except Fault Val} {r : Result Unit}
  {i j : Interp} {s : Store}

/-- A body that is paused is the current run, and the call is what follows it. -/
theorem of_isRunning (h : c.Stands cell m) (hc : c.IsRunning) :
    ∃ run, c.entry = .begun run ∧ m.current = some run ∧ m.outcome? run = none ∧
      ∃ x, c.body = some x ∧ c.step = c.use.follow cell x := by
  obtain ⟨w, t, resume, hbody⟩ := hc
  obtain ⟨use, start, entry, body, x⟩ := c
  subst hbody
  cases (show MemoStage cell use start m entry _ x from h) with
  | running hc hs =>
    refine ⟨_, rfl, hc, Array.getElem?_eq_none (Nat.le_of_eq hs), _, rfl, rfl⟩

/-- Once its body has ended, a call that has begun a run comes to its end. -/
theorem reaches_of_body (h : c.Stands cell m) (hbody : c.body = some (.done r i s))
    (hr : r.outcome? i = some (o, j)) :
    c.step.Reaches (fun _ => True) (c.use.conclude o j) := by
  obtain ⟨use, start, entry, body, x⟩ := c
  subst hbody
  cases (show MemoStage cell use start m entry _ x from h) with
  | returning => exact .turn fun _ _ _ => MemoUse.reaches_gather hr
  | noted hr' =>
    cases hr.symm.trans hr'
    exact .turn fun _ _ _ => MemoUse.reaches_hand
  | closed hr' _ _ hx =>
    cases hr.symm.trans hr'
    exact hx.reaches
  | lost => cases hr

/-- A call that has joined a run comes to its end once the run has an outcome. -/
theorem reaches_of_joined (h : c.Stands cell m) (he : c.entry = .joined run)
    (ho : m.outcome? run = some o) :
    c.step.Reaches (fun t => (t.memo cell).outcome? run = some o) (c.use.conclude o c.interp) := by
  obtain ⟨use, start, entry, body, x⟩ := c
  subst he
  cases (show MemoStage cell use start m _ body x from h) with
  | joining => exact .turn fun _ _ ht => MemoUse.reaches_await ht
  | seen => exact .turn fun _ _ ht => MemoUse.reaches_fetch ht
  | waiting =>
    exact .pause (fun t ht => Option.isSome_iff_exists.mpr ⟨o, ht⟩) fun _ _ t ht _ =>
      MemoUse.reaches_fetch ht
  | given ho' hx =>
    cases ho.symm.trans ho'
    exact hx.reaches

theorem known_of_joined (h : c.Stands cell m) (he : c.entry = .joined run) :
    run < m.outcomes.size ∨ m.current = some run := by
  obtain ⟨use, start, entry, body, x⟩ := c
  subst he
  cases (show MemoStage cell use start m _ body x from h) with
  | joining hk => exact hk
  | seen ho => exact .inl (Memo.lt_of_outcome? ho)
  | waiting hk => exact hk
  | given ho => exact .inl (Memo.lt_of_outcome? ho)

/-- Until then it waits. -/
theorem waits_of_joined (h : c.Stands cell m) (he : c.entry = .joined run)
    (ho : m.outcome? run = none) : c.step.wait?.isSome = true := by
  obtain ⟨use, start, entry, body, x⟩ := c
  subst he
  cases (show MemoStage cell use start m _ body x from h) with
  | joining => rfl
  | seen ho' => cases ho.symm.trans ho'
  | waiting => rfl
  | given ho' => cases ho.symm.trans ho'

/-- The outcome of a run is what the body of the call that has begun it has come to. -/
theorem exists_body (h : c.Stands cell m) (he : c.entry = .begun run)
    (ho : m.outcome? run = some o) :
    ∃ r i s, c.body = some (.done r i s) ∧ r.outcome? i = some (o, c.base) := by
  have hlt := Memo.lt_of_outcome? ho
  obtain ⟨use, start, entry, body, x⟩ := c
  subst he
  cases (show MemoStage cell use start m _ body x from h) with
  | running _ hs => exact absurd hlt (by omega)
  | returning _ hs => exact absurd hlt (by omega)
  | lost _ hs => exact absurd hlt (by omega)
  | noted hr _ _ ho' =>
    cases ho.symm.trans ho'
    exact ⟨_, _, _, rfl, by rw [hr]; simp only [base, hr]; rfl⟩
  | closed hr _ ho' =>
    cases ho.symm.trans ho'
    exact ⟨_, _, _, rfl, by rw [hr]; simp only [base, hr]; rfl⟩

/-- The call that has begun the current run is in progress. -/
theorem isOpen_of_current (h : c.Stands cell m) (he : c.entry = .begun run)
    (hm : m.current = some run) : c.IsOpen := by
  obtain ⟨use, start, entry, body, x⟩ := c
  subst he
  cases (show MemoStage cell use start m _ body x from h) with
  | running => exact .inl rfl
  | returning => exact .inl rfl
  | noted => exact .inl rfl
  | closed _ hc => exact absurd hm hc
  | lost _ _ hx =>
    cases hx with
    | turn => exact .inl rfl
    | ended s => exact .inr ⟨_, s, rfl⟩

/-- A call that has ended has ended with what it was given. -/
theorem of_ended (h : c.Stands cell m) (hc : ¬ c.IsOpen) :
    ∃ o s, c.given? m = some o ∧ c.step = c.use.conclude o c.base s := by
  have hnone : c.step.wait? = none := Option.not_isSome_iff_eq_none.mp fun h => hc (.inl h)
  obtain ⟨use, start, entry, body, x⟩ := c
  cases (show MemoStage cell use start m entry body x from h) with
  | cached => exact ⟨_, _, rfl, rfl⟩
  | running => cases hnone
  | returning => cases hnone
  | noted => cases hnone
  | closed hr _ ho hx =>
    obtain ⟨s, rfl⟩ := hx.of_ended hnone
    exact ⟨_, s, ho, by simp only [base, hr]; rfl⟩
  | lost _ _ hx =>
    cases hx with
    | turn => cases hnone
    | ended s => exact absurd (.inr ⟨_, s, rfl⟩) hc
  | joining => cases hnone
  | seen => cases hnone
  | waiting => cases hnone
  | given ho hx =>
    obtain ⟨s, rfl⟩ := hx.of_ended hnone
    exact ⟨_, s, ho, rfl⟩

/-- A value that a call is given is that of a run. -/
theorem exists_run {v : Val} (h : c.Stands cell m) (hv : c.given? m = some (.ok v)) :
    ∃ run, m.outcome? run = some (.ok v) := by
  obtain ⟨use, start, entry, body, x⟩ := c
  cases entry with
  | cached w =>
    cases hv
    cases (show MemoStage cell use start m _ body x from h) with
    | cached hv => exact ⟨_, hv⟩
  | begun run => exact ⟨run, hv⟩
  | joined run => exact ⟨run, hv⟩

end Stands

end MemoCall

/-! ## Sharing -/

/-- How the calls of a memo word and of its companions share the runs of its body. -/
structure MemoScene.Shares (cell : Nat) (w : Word) (σ : MemoScene) : Prop where
  /-- At most one run is in progress. -/
  one : ∀ n n' c c', σ.calls n = some c → σ.calls n' = some c' → c.IsRunning → c'.IsRunning → n = n'
  /-- The call that has begun it is what follows it. -/
  follows : ∀ n c, σ.calls n = some c → c.IsRunning →
    ∃ x, c.body = some x ∧ c.step = c.use.follow cell x
  /-- Whoever wants a fresh value while a run is in progress joins it. -/
  joins : ∀ n c, σ.calls n = some c → c.IsRunning →
    ∃ run, c.entry = .begun run ∧ (σ.store.memo cell).outcome? run = none ∧
      ∀ use : MemoUse, use.IsFresh (σ.store.memo cell) →
        use.entry (σ.store.memo cell) = .joined run
  /-- Who has joined a run waits until it has an outcome, and then ends with that outcome. -/
  joined : ∀ n c run, σ.calls n = some c → c.entry = .joined run →
    (∃ n' c', σ.calls n' = some c' ∧ c'.entry = .begun run) ∧
    ((σ.store.memo cell).outcome? run = none → c.step.wait?.isSome = true) ∧
    ∀ o, (σ.store.memo cell).outcome? run = some o →
      c.step.Reaches (fun t => (t.memo cell).outcome? run = some o) (c.use.conclude o c.interp)
  /-- The outcome of a run is what its body has come to: the value that the body has left, or its
  fault. -/
  outcome : ∀ n c run o, σ.calls n = some c → c.entry = .begun run →
    (σ.store.memo cell).outcome? run = some o →
    ∃ r i s, c.body = some (.done r i s) ∧ r.outcome? i = some (o, c.base)
  /-- The call that has begun the run ends with the outcome too, whatever others do. -/
  begun : ∀ n c r i s o j, σ.calls n = some c → c.body = some (.done r i s) →
    r.outcome? i = some (o, j) → c.step.Reaches (fun _ => True) (c.use.conclude o j)
  /-- Outcomes do not change. -/
  lasts : ∀ τ, MemoScene.Move cell w σ τ → σ.Lasts cell τ
  /-- A call that completes leaves exactly the value that it was given, on the stack of its
  caller. -/
  completed : ∀ n c j s, σ.calls n = some c → c.step = .done (.ok ()) j s →
    ∃ v, c.given? (σ.store.memo cell) = some (.ok v) ∧ j = c.use.leave v c.base
  /-- A call that fails leaves the fault that it was given, and no value. -/
  failed : ∀ n c f j s, σ.calls n = some c → c.step = .done (.fault f) j s →
    c.given? (σ.store.memo cell) = some (.error f) ∧ j = c.base
  /-- The value that is remembered is that of the latest run to succeed of those that are not
  current: a run that fails leaves it as it was. -/
  value : (σ.store.memo cell).value = Memo.latest ((σ.store.memo cell).outcomes.toList.take
    ((σ.store.memo cell).current.getD (σ.store.memo cell).outcomes.size))
  /-- Whoever wants a fresh value begins a run, unless there is one of a call that has not ended. -/
  next : ∀ use : MemoUse, use.IsFresh (σ.store.memo cell) →
    use.entry (σ.store.memo cell) = .begun (σ.store.memo cell).outcomes.size ∨
    ∃ n c run, σ.calls n = some c ∧ c.entry = .begun run ∧ c.IsOpen ∧
      use.entry (σ.store.memo cell) = .joined run
  /-- If all calls want the value only, at most one run succeeds, and they leave its value. -/
  once : (∀ n c, σ.calls n = some c → c.use = .value) →
    (∀ k k' v v', (σ.store.memo cell).outcome? k = some (.ok v) →
      (σ.store.memo cell).outcome? k' = some (.ok v') → k = k') ∧
    ∀ n c j s, σ.calls n = some c → c.step = .done (.ok ()) j s →
      ∃ k v, (σ.store.memo cell).outcome? k = some (.ok v) ∧
        j = { c.base with stack := c.base.stack.push v }

namespace MemoScene.Kept

variable {cell n n' : Nat} {σ : MemoScene} {c c' : MemoCall} {f : Fault} {j : Interp} {s : Store}

theorem one (h : σ.Kept cell) (hc : σ.calls n = some c) (hc' : σ.calls n' = some c')
    (hrun : c.IsRunning) (hrun' : c'.IsRunning) : n = n' := by
  obtain ⟨k, he, hk, -⟩ := (h.calls.stands n c hc).of_isRunning hrun
  obtain ⟨k', he', hk', -⟩ := (h.calls.stands n' c' hc').of_isRunning hrun'
  obtain rfl := Option.some.inj (hk.symm.trans hk')
  exact h.calls.unique n n' c c' k hc hc' he he'

/-- A call that has ended has ended with what it was given. -/
theorem of_done {r : Result Unit} (h : σ.Kept cell) (hc : σ.calls n = some c)
    (hstep : c.step = .done r j s) (hr : r ≠ .exhausted) :
    ∃ o t, c.given? (σ.store.memo cell) = some o ∧ .done r j s = c.use.conclude o c.base t := by
  have hended : ¬ c.IsOpen := by
    rintro (hwait | ⟨i, t, hlost⟩)
    · rw [hstep] at hwait
      cases hwait
    · rw [hstep] at hlost
      cases hlost
      exact hr rfl
  exact hstep ▸ (h.calls.stands n c hc).of_ended hended

theorem completed (h : σ.Kept cell) (hc : σ.calls n = some c)
    (hstep : c.step = .done (.ok ()) j s) :
    ∃ v, c.given? (σ.store.memo cell) = some (.ok v) ∧ j = c.use.leave v c.base := by
  obtain ⟨o, t, ho, hconclude⟩ := h.of_done hc hstep nofun
  cases o with
  | ok v =>
    cases hconclude
    exact ⟨v, ho, rfl⟩
  | error f => cases hconclude

theorem failed (h : σ.Kept cell) (hc : σ.calls n = some c)
    (hstep : c.step = .done (.fault f) j s) :
    c.given? (σ.store.memo cell) = some (.error f) ∧ j = c.base := by
  obtain ⟨o, t, ho, hconclude⟩ := h.of_done hc hstep nofun
  cases o with
  | ok v => cases hconclude
  | error f =>
    cases hconclude
    exact ⟨ho, rfl⟩

theorem next (h : σ.Kept cell) {use : MemoUse} (hfresh : use.IsFresh (σ.store.memo cell)) :
    use.entry (σ.store.memo cell) = .begun (σ.store.memo cell).outcomes.size ∨
    ∃ n c run, σ.calls n = some c ∧ c.entry = .begun run ∧ c.IsOpen ∧
      use.entry (σ.store.memo cell) = .joined run := by
  cases hm : (σ.store.memo cell).current with
  | none => exact .inl (MemoUse.entry_of_idle hfresh hm)
  | some run =>
    obtain ⟨n, c, hc, he⟩ := h.calls.owner run (.inr hm)
    exact .inr ⟨n, c, run, hc, he, (h.calls.stands n c hc).isOpen_of_current he hm,
      MemoUse.entry_of_current hfresh hm⟩

theorem once (h : σ.Kept cell) (hall : ∀ n c, σ.calls n = some c → c.use = .value)
    (hc : σ.calls n = some c) (hstep : c.step = .done (.ok ()) j s) :
    ∃ k v, (σ.store.memo cell).outcome? k = some (.ok v) ∧
      j = { c.base with stack := c.base.stack.push v } := by
  obtain ⟨v, hv, hj⟩ := h.completed hc hstep
  obtain ⟨k, hk⟩ := (h.calls.stands n c hc).exists_run hv
  rw [hall n c hc] at hj
  exact ⟨k, v, hk, hj⟩

end MemoScene.Kept

/-- Memo words whose bodies do not call them. -/
theorem memo_calls_share_runs {cell : Nat} {w : Word} {σ : MemoScene} (hw : w.SparesMemo cell)
    (h : MemoScene.Reached cell w σ) : σ.Shares cell w where
  one _ _ _ _ hc hc' := (h.kept hw).one hc hc'
  follows n c hc hrun := by
    obtain ⟨-, -, -, -, hfollows⟩ := ((h.kept hw).calls.stands n c hc).of_isRunning hrun
    exact hfollows
  joins n c hc hrun := by
    obtain ⟨run, he, hm, ho, -⟩ := ((h.kept hw).calls.stands n c hc).of_isRunning hrun
    exact ⟨run, he, ho, fun use hfresh => MemoUse.entry_of_current hfresh hm⟩
  joined n c run hc he := by
    have hstands := (h.kept hw).calls.stands n c hc
    exact ⟨(h.kept hw).calls.owner run (hstands.known_of_joined he), hstands.waits_of_joined he,
      fun o => hstands.reaches_of_joined he⟩
  outcome n c run o hc := ((h.kept hw).calls.stands n c hc).exists_body
  begun n c r i s o j hc := ((h.kept hw).calls.stands n c hc).reaches_of_body
  lasts τ hm := ((h.kept hw).move hw hm).2
  completed n c j s := (h.kept hw).completed
  failed n c f j s := (h.kept hw).failed
  value := (h.kept hw).calls.sound
  next use := (h.kept hw).next
  once hall := by
    refine ⟨fun k k' v v' hk hk' => ?_, fun n c j s => (h.kept hw).once hall⟩
    have honce := (h.kept hw).calls.once hall
    have hsize := (honce k v hk).1
    have hsize' := (honce k' v' hk').1
    omega

/-! ## Two callers of a word that lets others take a turn -/

/-- Leaves a text once the others have had a turn. -/
def Word.takingTurns : Word :=
  .native { name := "TEXT" } 0 false true
    (fun _ _ => .ask .turn fun _ => .done (some (.str "text"))) []

theorem Word.takingTurns_still : takingTurns.Asks Query.isStill :=
  ⟨fun _ _ => ⟨rfl, fun _ => trivial⟩, fun _ h => absurd h List.not_mem_nil⟩

/-- A memo that tasks share. -/
def Store.withMemo : Store := { memos := #[{}], isShared := true }

/-- A call for the value. -/
def MemoCall.forText (s : Store) : MemoCall :=
  .begin 0 .takingTurns (nested 0) .value { name := "MEMO" } .host s

/-- Nobody has called the word yet. -/
def MemoScene.uncalled : MemoScene := ⟨.withMemo, fun _ => none⟩

/-- Somebody has. -/
def MemoScene.calledOnce : MemoScene := uncalled.put 0 (.forText uncalled.store)

/-- So has somebody else. -/
def MemoScene.calledTwice : MemoScene := calledOnce.put 1 (.forText calledOnce.store)

/-- The second caller joins the run of the first one. -/
theorem memo_calls_share_runs_text :
    Word.takingTurns.SparesMemo 0 ∧ MemoScene.Reached 0 .takingTurns .calledTwice ∧
      MemoScene.calledTwice.Shares 0 .takingTurns ∧
      (∃ c, MemoScene.calledTwice.calls 0 = some c ∧ c.IsRunning ∧ c.entry = .begun 0) ∧
      ∃ c, MemoScene.calledTwice.calls 1 = some c ∧ c.entry = .joined 0 := by
  have hspares : Word.takingTurns.SparesMemo 0 := Word.sparesMemo_of_still Word.takingTurns_still 0
  have hstart : MemoScene.Reached 0 .takingTurns .uncalled := .start (by decide) rfl
  have honce : MemoScene.Reached 0 .takingTurns .calledOnce :=
    .move hstart (.call rfl 0 .value { name := "MEMO" } .host)
  have hreached : MemoScene.Reached 0 .takingTurns .calledTwice :=
    .move honce (.call rfl 0 .value { name := "MEMO" } .host)
  refine ⟨hspares, hreached, memo_calls_share_runs hspares hreached, ?_, ?_⟩
  · exact ⟨.forText .withMemo, rfl, ⟨_, _, _, rfl⟩, rfl⟩
  · exact ⟨.forText MemoScene.calledOnce.store, rfl, rfl⟩

end Wordstack
