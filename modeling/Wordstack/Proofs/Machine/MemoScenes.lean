import Mathlib.Logic.Function.Basic
import Wordstack.Bridge.Network
import Wordstack.Proofs.Machine.MemoStages
import Wordstack.Proofs.Machine.Unaltered

/-!
# Calls of a memo word in progress

Interpreters that share a memo word call it, its companions and whatever else, in any order and with
any number of turns in between.

- **Scenes** (`MemoScene`): the store, the calls, and what the bodies that they run have come to.
- **Moves** (`MemoScene.Move`): one call is made or resumed, or something else is done.
- **What is kept** (`MemoKept`): where each call stands, and which of them has begun which run. One
  lemma a move (`MemoScene.Kept.call`, `MemoScene.Kept.resume`), and so of all scenes that can be
  reached (`MemoScene.Reached.kept`).
-/

namespace Wordstack

/-! ## Scenes -/

/-- A call of a memo word or of a companion, in progress or ended. -/
structure MemoCall where
  use : MemoUse
  /-- The interpreter of the caller when it made the call. -/
  interp : Interp
  /-- How the call comes to its value, by what the memo held when it was made. -/
  entry : MemoEntry
  /-- What the body has come to, if the call has begun a run. -/
  body : Option (Step Unit)
  /-- What the call has come to. -/
  step : Step Unit

/-- A store, and the calls made so far, each under a number of its own. -/
structure MemoScene where
  store : Store
  calls : Nat → Option MemoCall

/-- A new call. -/
def MemoCall.begin (cell : Nat) (w : Word) (e : Nested) (use : MemoUse) (label : WordLabel)
    (i : Interp) (s : Store) : MemoCall where
  use := use
  interp := i
  entry := use.entry (s.memo cell)
  body :=
    match use.entry (s.memo cell) with
    | .begun _ => some (execute e w i (s.setMemo cell (s.memo cell).enter.2))
    | _ => none
  step := execute e (use.word label cell w) i s

/-- A call that is resumed, and the body with it. -/
def MemoCall.wake (c : MemoCall) (wake : Wake) (s : Store) : MemoCall :=
  { c with body := c.body.map (Step.wake wake s), step := c.step.wake wake s }

/-- The scene once a call has gone on. -/
def MemoScene.put (σ : MemoScene) (n : Nat) (c : MemoCall) : MemoScene :=
  ⟨c.step.store, Function.update σ.calls n (some c)⟩

/-- What can happen: a call is made, by any interpreter; a paused call is resumed when what it waits
for is there or its time is up; or something else is done, which leaves the memo alone. -/
inductive MemoScene.Move (cell : Nat) (w : Word) : MemoScene → MemoScene → Prop
  | call {σ : MemoScene} {n : Nat} (h : σ.calls n = none) (depth : Nat) (use : MemoUse)
    (label : WordLabel) (i : Interp) :
    Move cell w σ (σ.put n (.begin cell w (nested depth) use label i σ.store))
  | resume {σ : MemoScene} {n : Nat} {c : MemoCall} {wait : Wait} {wake : Wake} {idle : Bool}
    (h : σ.calls n = some c) (hw : c.step.wait? = some wait) (hdue : wake.IsDue wait idle σ.store) :
    Move cell w σ (σ.put n (c.wake wake σ.store))
  | other {σ : MemoScene} {t : Store} (hb : cell < t.memos.size)
    (hm : t.memo cell = σ.store.memo cell) : Move cell w σ ⟨t, σ.calls⟩

/-- The scenes that can be reached from a memo word that was never called. -/
inductive MemoScene.Reached (cell : Nat) (w : Word) : MemoScene → Prop
  | start {s : Store} (hb : cell < s.memos.size) (hm : s.memo cell = {}) :
    Reached cell w ⟨s, fun _ => none⟩
  | move {σ τ : MemoScene} (h : Reached cell w σ) (hm : Move cell w σ τ) : Reached cell w τ

/-- The word does not call a memo word: it leaves the memo alone, as long as others do. -/
def Word.SparesMemo (w : Word) (cell : Nat) : Prop :=
  ∀ (depth : Nat) (m : Memo), (execute (nested depth) w).Keeps (memoGuard cell m) fun _ => True

theorem still_memoGuard (cell : Nat) (m : Memo) : (memoGuard cell m).Still :=
  ⟨fun _ _ _ _ h => h, fun _ _ _ _ _ _ h => h⟩

/-- Words that ask still queries only call no memo words. -/
theorem Word.sparesMemo_of_still {w : Word} (hw : w.Asks Query.isStill) (cell : Nat) :
    w.SparesMemo cell := fun _ m => Unaltered.keeps_execute (still_memoGuard cell m) w hw

/-! ## What is kept -/

/-- Where a call stands. -/
def MemoCall.Stands (c : MemoCall) (cell : Nat) (m : Memo) : Prop :=
  MemoStage cell c.use c.interp m c.entry c.body c.step

/-- Where each call stands, that each run was begun by one call, and that calls that only want the
value run the body successfully once. -/
structure MemoKept (cell : Nat) (m : Memo) (calls : Nat → Option MemoCall) : Prop where
  sound : m.Sound
  stands : ∀ n c, calls n = some c → c.Stands cell m
  unique : ∀ n n' c c' run, calls n = some c → calls n' = some c' → c.entry = .begun run →
    c'.entry = .begun run → n = n'
  owner : ∀ run, run < m.outcomes.size ∨ m.current = some run →
    ∃ n c, calls n = some c ∧ c.entry = .begun run
  once : (∀ n c, calls n = some c → c.use = .value) → m.Once

namespace MemoKept

variable {cell n run : Nat} {m m' : Memo} {calls : Nat → Option MemoCall} {c : MemoCall}

theorem empty (cell : Nat) : MemoKept cell {} fun _ => none where
  sound := Memo.sound_empty
  stands _ _ h := nomatch h
  unique _ _ _ _ _ h := nomatch h
  owner _ h := h.elim (fun h => absurd h (Nat.not_lt_zero _)) nofun
  once _ k v hk := by simp [Memo.outcome?] at hk

/-- One call is made or goes on, and the others stand where they stood. -/
theorem put (h : MemoKept cell m calls) (hsound : m'.Sound)
    (hothers : ∀ k d, calls k = some d → k ≠ n → d.Stands cell m') (hstands : c.Stands cell m')
    (hunique : ∀ run k d, c.entry = .begun run → calls k = some d → d.entry = .begun run → k = n)
    (howner : ∀ run, run < m'.outcomes.size ∨ m'.current = some run → c.entry = .begun run ∨
      ∃ k d, calls k = some d ∧ k ≠ n ∧ d.entry = .begun run)
    (honce : c.use = .value → (∀ k d, calls k = some d → k ≠ n → d.use = .value) → m'.Once) :
    MemoKept cell m' (Function.update calls n (some c)) where
  sound := hsound
  stands k d hd := by
    by_cases hk : k = n
    · subst hk
      rw [Function.update_self] at hd
      cases hd
      exact hstands
    · rw [Function.update_of_ne hk] at hd
      exact hothers k d hd hk
  unique k k' d d' run hd hd' he he' := by
    by_cases hk : k = n
    · subst hk
      rw [Function.update_self] at hd
      cases hd
      by_cases hk' : k' = k
      · exact hk'.symm
      · rw [Function.update_of_ne hk'] at hd'
        exact (hunique run k' d' he hd' he').symm
    · rw [Function.update_of_ne hk] at hd
      by_cases hk' : k' = n
      · subst hk'
        rw [Function.update_self] at hd'
        cases hd'
        exact hunique run k d he' hd he
      · rw [Function.update_of_ne hk'] at hd'
        exact h.unique k k' d d' run hd hd' he he'
  owner run hrun := by
    obtain he | ⟨k, d, hd, hk, he⟩ := howner run hrun
    · exact ⟨n, c, Function.update_self .., he⟩
    · exact ⟨k, d, by rwa [Function.update_of_ne hk], he⟩
  once hall := by
    refine honce (hall n c (Function.update_self ..)) fun k d hd hk => hall k d ?_
    rwa [Function.update_of_ne hk]

/-- The same, where the call has the entry and the use that it had if it is not new. -/
theorem putLike (h : MemoKept cell m calls)
    (hn : ∀ d, calls n = some d → d.entry = c.entry ∧ d.use = c.use) (hsound : m'.Sound)
    (hothers : ∀ k d, calls k = some d → k ≠ n → d.Stands cell m') (hstands : c.Stands cell m')
    (hunique : ∀ run k d, c.entry = .begun run → calls k = some d → d.entry = .begun run → k = n)
    (hknown : ∀ run, run < m'.outcomes.size ∨ m'.current = some run →
      run < m.outcomes.size ∨ m.current = some run) (honce : m.Once → m'.Once) :
    MemoKept cell m' (Function.update calls n (some c)) := by
  refine h.put hsound hothers hstands hunique (fun run hrun => ?_) fun huse hall => ?_
  · obtain ⟨k, d, hd, he⟩ := h.owner run (hknown run hrun)
    by_cases hk : k = n
    · subst hk
      exact .inl ((hn d hd).1 ▸ he)
    · exact .inr ⟨k, d, hd, hk, he⟩
  · refine honce (h.once fun k d hd => ?_)
    by_cases hk : k = n
    · subst hk
      exact (hn d hd).2.trans huse
    · exact hall k d hd hk

/-- A call that has not begun a run is made or goes on. -/
theorem stay (h : MemoKept cell m calls) (hc : ∀ run, c.entry ≠ .begun run)
    (hn : ∀ d, calls n = some d → d.entry = c.entry ∧ d.use = c.use) (hstands : c.Stands cell m) :
    MemoKept cell m (Function.update calls n (some c)) :=
  h.putLike hn h.sound (fun k d hd _ => h.stands k d hd) hstands
    (fun run _ _ he => absurd he (hc run)) (fun _ => id) id

/-- A call that has begun a run goes on. -/
theorem goOn {d : MemoCall} (h : MemoKept cell m calls) (hd : calls n = some d)
    (hsame : d.entry = c.entry ∧ d.use = c.use) (he : c.entry = .begun run) (hg : m.Goes run m')
    (hstands : c.Stands cell m') : MemoKept cell m' (Function.update calls n (some c)) := by
  have hmine : ∀ k d', calls k = some d' → d'.entry = .begun run → k = n := fun k d' hd' he' =>
    h.unique k n d' d run hd' hd he' (hsame.1.trans he)
  refine h.putLike (fun d' hd' => Option.some.inj (hd.symm.trans hd') ▸ hsame) (h.sound.goes hg)
    (fun k d' hd' hk => ?_) hstands (fun run' k d' hc hd' he' => ?_) (fun _ => hg.of_known)
    fun honce => honce.goes hg
  · exact (h.stands k d' hd').goes (fun he' => hk (hmine k d' hd' he')) hg
  · obtain rfl := MemoEntry.begun.inj (he.symm.trans hc)
    exact hmine k d' hd' he'

/-- Where no run is current, all runs that were begun have ended. -/
theorem lt_of_begun (h : MemoKept cell m calls) (hm : m.current = none) {d : MemoCall} {k : Nat}
    (hd : calls k = some d) (he : d.entry = .begun run) : run < m.outcomes.size := by
  have hstands := h.stands k d hd
  unfold MemoCall.Stands at hstands
  rw [he] at hstands
  exact hstands.lt_of_begun hm

/-- A call begins a run. -/
theorem begin (h : MemoKept cell m calls) (hn : calls n = none) (hm : m.current = none)
    (hfresh : c.use.IsFresh m) (he : c.entry = .begun m.outcomes.size)
    (hg : m.enter.2.Goes m.outcomes.size m') (hstands : c.Stands cell m') :
    MemoKept cell m' (Function.update calls n (some c)) := by
  -- the number of the run is a new one
  have hne : ∀ {k d}, calls k = some d → d.entry ≠ .begun m.outcomes.size := fun hd hd' =>
    Nat.lt_irrefl _ (h.lt_of_begun hm hd hd')
  have henter : m.enter.2 = { m with current := some m.outcomes.size } := by
    rw [Memo.enter, hm]
  refine h.put ((h.sound.enter hm).goes hg) (fun k d hd _ => ?_) hstands
    (fun run k d hc hd hd' => ?_) (fun run hrun => ?_) fun huse _ => ?_
  · exact ((h.stands k d hd).enter hm).goes (hne hd) hg
  · obtain rfl := MemoEntry.begun.inj (he.symm.trans hc)
    exact absurd hd' (hne hd)
  · have hknown := hg.of_known hrun
    rw [henter] at hknown
    obtain hlt | hcurrent := hknown
    · obtain ⟨k, d, hd, hd'⟩ := h.owner run (.inl hlt)
      refine .inr ⟨k, d, hd, fun hk => ?_, hd'⟩
      subst hk
      cases hn.symm.trans hd
    · exact .inl (Option.some.inj hcurrent ▸ he)
  · exact (h.sound.once_enter (hfresh huse) hm).goes hg

end MemoKept

/-! ## Scenes that are reached -/

/-- What is kept of a scene. -/
structure MemoScene.Kept (cell : Nat) (σ : MemoScene) : Prop where
  bound : cell < σ.store.memos.size
  calls : MemoKept cell (σ.store.memo cell) σ.calls

/-- Runs that have ended in a scene have ended likewise in the other one. -/
def MemoScene.Lasts (cell : Nat) (σ τ : MemoScene) : Prop :=
  ∀ run o, (σ.store.memo cell).outcome? run = some o → (τ.store.memo cell).outcome? run = some o

namespace MemoScene

variable {cell n : Nat} {w : Word} {σ τ : MemoScene} {c : MemoCall}

/-- A call that has not begun a run is made or goes on. -/
theorem Kept.stay (h : σ.Kept cell) (hc : ∀ run, c.entry ≠ .begun run)
    (hn : ∀ d, σ.calls n = some d → d.entry = c.entry ∧ d.use = c.use)
    (hstore : c.step.store = σ.store) (hstands : c.Stands cell (σ.store.memo cell)) :
    (σ.put n c).Kept cell ∧ σ.Lasts cell (σ.put n c) := by
  unfold put
  rw [hstore]
  exact ⟨⟨h.bound, h.calls.stay hc hn hstands⟩, fun _ _ ho => ho⟩

theorem Kept.call (hw : w.SparesMemo cell) (h : σ.Kept cell) (hn : σ.calls n = none) (depth : Nat)
    (use : MemoUse) (label : WordLabel) (i : Interp) :
    (σ.put n (.begin cell w (nested depth) use label i σ.store)).Kept cell ∧
      σ.Lasts cell (σ.put n (.begin cell w (nested depth) use label i σ.store)) := by
  have hnew : ∀ {c d : MemoCall}, σ.calls n = some d → d.entry = c.entry ∧ d.use = c.use :=
    fun hd => nomatch hn.symm.trans hd
  unfold MemoCall.begin
  rw [execute_word]
  unfold MemoUse.call
  cases he : use.entry (σ.store.memo cell) with
  | cached v =>
    obtain ⟨k, hk⟩ := h.calls.sound.exists_run (MemoUse.of_entry_cached he).2
    exact h.stay nofun (fun _ => hnew) rfl (.cached hk)
  | joined run =>
    obtain ⟨hstore, hstage⟩ := MemoStage.join (.inr (MemoUse.of_entry_joined he))
    exact h.stay nofun (fun _ => hnew) hstore hstage
  | begun run =>
    -- the body starts from a memo whose current run is the new one
    obtain ⟨hfresh, hm, rfl⟩ := MemoUse.of_entry_begun he
    have henter : (σ.store.memo cell).enter.2 =
        { σ.store.memo cell with current := some (σ.store.memo cell).outcomes.size } := by
      rw [Memo.enter, hm]
    have hbody := (hw depth (σ.store.memo cell).enter.2).steps (i := i) trivial
      ⟨(Store.size_setMemo (s := σ.store) _).symm ▸ h.bound, Store.memo_setMemo_self h.bound⟩
    have harrives : MemoArrives cell use i (σ.store.memo cell).outcomes.size
        (σ.store.memo cell).enter.2 _ _ := .follow hbody (by rw [henter]) (by rw [henter])
    refine ⟨⟨harrives.bound, h.calls.begin hn hm hfresh rfl harrives.goes harrives.stage⟩, ?_⟩
    intro run o ho
    refine harrives.goes.outcome? ?_
    rw [henter]
    exact ho

/-- A call goes on. -/
theorem Kept.resume {wait : Wait} {wake : Wake} {idle : Bool} (h : σ.Kept cell)
    (hc : σ.calls n = some c) (hwait : c.step.wait? = some wait)
    (hdue : wake.IsDue wait idle σ.store) :
    (σ.put n (c.wake wake σ.store)).Kept cell ∧ σ.Lasts cell (σ.put n (c.wake wake σ.store)) := by
  have hold : ∀ d, σ.calls n = some d →
      d.entry = (c.wake wake σ.store).entry ∧ d.use = (c.wake wake σ.store).use := fun d hd =>
    Option.some.inj (hc.symm.trans hd) ▸ ⟨rfl, rfl⟩
  obtain ⟨use, start, entry, body, x⟩ := c
  have hstands : MemoStage cell use start (σ.store.memo cell) entry body x := h.calls.stands n _ hc
  cases entry with
  | cached v =>
    cases hstands
    -- the call has ended, so nobody waits for it
    exact nomatch (show none = some wait from hwait)
  | joined run =>
    obtain ⟨hstore, hstage⟩ := hstands.wake_joined hwait hdue
    have hnone : body = none := by cases hstands <;> rfl
    subst hnone
    exact h.stay nofun hold hstore hstage
  | begun run =>
    obtain ⟨x, rfl⟩ : ∃ x, body = some x := by cases hstands <;> exact ⟨_, rfl⟩
    have harrives : MemoArrives cell use start run _ (x.wake wake σ.store) _ :=
      hstands.wake_begun (hwait ▸ rfl) h.bound
    exact ⟨⟨harrives.bound, h.calls.goOn hc ⟨rfl, rfl⟩ rfl harrives.goes harrives.stage⟩,
      fun _ _ => harrives.goes.outcome?⟩

theorem Kept.move (hw : w.SparesMemo cell) (h : σ.Kept cell) (hm : Move cell w σ τ) :
    τ.Kept cell ∧ σ.Lasts cell τ := by
  cases hm with
  | call hn depth use label i => exact h.call hw hn depth use label i
  | resume hc hwait hdue => exact h.resume hc hwait hdue
  | other hb hm =>
    have hlasts : σ.Lasts cell ⟨_, σ.calls⟩ := fun run o ho => by rwa [hm]
    exact ⟨⟨hb, hm ▸ h.calls⟩, hlasts⟩

theorem Reached.kept (hw : w.SparesMemo cell) (h : Reached cell w σ) : σ.Kept cell := by
  induction h with
  | start hb hm => exact ⟨hb, hm ▸ .empty cell⟩
  | move _ hm ih => exact (ih.move hw hm).1

end MemoScene

end Wordstack
