import Wordstack.Proofs.Machine.Keeping
import Wordstack.Proofs.Machine.MemoCalls
import Wordstack.Proofs.Machine.Stores

/-!
# Where calls of memo words stand

A call goes through stages. In each of them it is known what the memo holds, and what the call does
when it is resumed.

- **Memos** (`Memo.Goes`, `Memo.Sound`): what the call that has begun a run does with the memo.
- **Stages** (`MemoStage`): where a call stands, given how it comes to its value.
- **Resumed calls** (`MemoStage.wake_begun`, `MemoStage.wake_joined`): they go on to other stages.
- **Other calls** (`MemoStage.goes`, `MemoStage.enter`): they stay where they stand.
-/

namespace Wordstack

/-! ## Memos -/

namespace Memo

/-- The value of the latest run that has succeeded. -/
def latest (outcomes : List (Except Fault Val)) : Option Val :=
  (outcomes.filterMap Except.toOption).getLast?

/-- What the call that has begun a run may have done with a memo since. -/
inductive Goes (run : Nat) (m : Memo) : Memo → Prop
  | refl : Goes run m m
  | finish {m' : Memo} (o : Except Fault Val) (h : Goes run m m') (hc : m'.current = some run)
      (hs : m'.outcomes.size = run) : Goes run m (m'.finish o)
  | close {m' : Memo} {o : Except Fault Val} (h : Goes run m m') (hc : m'.current = some run)
      (hs : m'.outcomes.size = run + 1) (ho : m'.outcome? run = some o) : Goes run m (m'.close o)

/-- What holds of every memo: the value is that of the latest run to succeed before the current one. -/
def Sound (m : Memo) : Prop :=
  m.value = latest (m.outcomes.toList.take (m.current.getD m.outcomes.size))

section Memo

variable {m m' : Memo} {run k : Nat} {o o' : Except Fault Val}

theorem outcome?_finish (m : Memo) (o : Except Fault Val) (k : Nat) :
    (m.finish o).outcome? k = if k = m.outcomes.size then some o else m.outcome? k := by
  unfold finish outcome?
  exact Array.getElem?_push

theorem lt_of_outcome? (h : m.outcome? k = some o) : k < m.outcomes.size :=
  (Array.getElem?_eq_some_iff.mp h).1

theorem Goes.trans {m'' : Memo} (h : Goes run m m') (h' : Goes run m' m'') : Goes run m m'' := by
  induction h' with
  | refl => exact h
  | finish o _ hc hs ih => exact .finish o ih hc hs
  | close _ hc hs ho ih => exact .close ih hc hs ho

/-- Runs that have ended keep their outcomes. -/
theorem Goes.outcome? (h : Goes run m m') (ho : m.outcome? k = some o) : m'.outcome? k = some o := by
  induction h with
  | refl => exact ho
  | finish _ _ _ _ ih =>
    rw [outcome?_finish, if_neg (Nat.ne_of_lt (lt_of_outcome? ih)), ih]
  | close _ _ _ _ ih => exact ih

/-- Only the run that is current ends. -/
theorem Goes.eq_or_current (h : Goes run m m') : m' = m ∨ m.current = some run := by
  induction h with
  | refl => exact .inl rfl
  | finish _ _ hc _ ih => exact .inr (ih.elim (fun e => e ▸ hc) id)
  | close _ hc _ _ ih => exact .inr (ih.elim (fun e => e ▸ hc) id)

/-- A run that is current afterwards was current before. -/
theorem Goes.current (h : Goes run m m') (hk : m'.current = some k) : m.current = some k := by
  induction h with
  | refl => exact hk
  | finish _ _ _ _ ih => exact ih hk
  | close => cases hk

/-- A run that is current or has ended goes on being one of the two. -/
theorem Goes.known (h : Goes run m m') (hk : k < m.outcomes.size ∨ m.current = some k) :
    k < m'.outcomes.size ∨ m'.current = some k := by
  induction h with
  | refl => exact hk
  | finish _ _ _ _ ih => exact ih.imp_left fun h => Nat.lt_of_lt_of_le h (by simp [Memo.finish])
  | close _ hc _ ho ih =>
    refine .inl (ih.elim id fun hcurrent => ?_)
    obtain rfl := Option.some.inj (hc.symm.trans hcurrent)
    exact lt_of_outcome? ho

/-- The runs that are current or have ended are those that were, and the one that went on. -/
theorem Goes.of_known (h : Goes run m m') (hk : k < m'.outcomes.size ∨ m'.current = some k) :
    k < m.outcomes.size ∨ m.current = some k := by
  induction h with
  | refl => exact hk
  | @finish m' o _ hc hs ih =>
    refine ih (hk.elim (fun h => ?_) .inr)
    have hlt : k < m'.outcomes.size + 1 := by simpa [Memo.finish] using h
    obtain hlt | rfl := Nat.lt_succ_iff_lt_or_eq.mp hlt
    · exact .inl hlt
    · exact .inr (hs ▸ hc)
  | close _ _ _ _ ih => exact ih (.inl (hk.resolve_right (Option.some_ne_none k).symm))

/-- A value is that of a run. -/
theorem Sound.exists_run (h : m.Sound) {v : Val} (hv : m.value = some v) :
    ∃ k, m.outcome? k = some (.ok v) := by
  have hlast := List.mem_of_getLast? (h.symm.trans hv)
  obtain ⟨o, ho, hov⟩ := List.mem_filterMap.mp hlast
  obtain ⟨k, hk⟩ := List.getElem?_of_mem (List.mem_of_mem_take ho)
  refine ⟨k, ?_⟩
  rw [Array.getElem?_toList] at hk
  cases o with
  | ok w =>
    cases hov
    exact hk
  | error f => cases hov

/-- At most the latest run has succeeded, and none has begun since. -/
def Once (m : Memo) : Prop :=
  ∀ k v, m.outcome? k = some (.ok v) →
    k + 1 = m.outcomes.size ∧ ∀ k', m.current = some k' → k' = k

theorem Once.goes (h : m.Once) (hg : Goes run m m') : m'.Once := by
  induction hg with
  | refl => exact h
  | @finish m' o _ hc hs ih =>
    intro k v hk
    rw [outcome?_finish] at hk
    split at hk
    · rename_i hlast
      refine ⟨by simp [Memo.finish, hlast], fun k' hk' => ?_⟩
      rw [hlast, hs]
      exact (Option.some.inj (hc.symm.trans hk')).symm
    · obtain ⟨hsize, hcurrent⟩ := ih k v hk
      have := hcurrent run hc
      omega
  | close _ _ _ _ ih =>
    intro k v hk
    exact ⟨(ih k v hk).1, fun k' hk' => absurd hk' (Option.some_ne_none k').symm⟩

/-- Where there is no value and no current run, no run has succeeded. -/
theorem Sound.outcome?_ne (h : m.Sound) (hv : m.value = none) (hc : m.current = none) {v : Val} :
    m.outcome? k ≠ some (.ok v) := by
  intro hk
  have hvalue : m.value = _ := h
  rw [hv, hc, Option.getD_none, List.take_of_length_le (by simp)] at hvalue
  have hmem : (.ok v : Except Fault Val) ∈ m.outcomes.toList := by
    refine List.mem_of_getElem? (i := k) ?_
    rw [Array.getElem?_toList]
    exact hk
  have hnone : m.outcomes.toList.filterMap Except.toOption = [] :=
    List.getLast?_eq_none_iff.mp hvalue.symm
  have hfound : v ∈ m.outcomes.toList.filterMap Except.toOption :=
    List.mem_filterMap.mpr ⟨_, hmem, rfl⟩
  rw [hnone] at hfound
  cases hfound

/-- A run that is begun for want of a value is the first that may succeed. -/
theorem Sound.once_enter (h : m.Sound) (hv : m.value = none) (hc : m.current = none) :
    m.enter.2.Once := by
  unfold Memo.enter
  rw [hc]
  exact fun k v hk => absurd hk (h.outcome?_ne hv hc)

theorem latest_concat (os : List (Except Fault Val)) (o : Except Fault Val) :
    latest (os ++ [o]) = match o with
      | .ok v => some v
      | .error _ => latest os := by
  unfold latest
  cases o with
  | ok v => simp [List.filterMap_append, Except.toOption]
  | error f => simp [List.filterMap_append, Except.toOption]

theorem sound_empty : Sound {} := rfl

/-- A call begins a run where none is current. -/
theorem Sound.enter (h : m.Sound) (hm : m.current = none) : m.enter.2.Sound := by
  unfold Sound at h
  rw [hm] at h
  unfold Memo.enter
  rw [hm]
  exact h

theorem Sound.goes (h : m.Sound) (hg : Goes run m m') : m'.Sound := by
  induction hg with
  | refl => exact h
  | @finish m' o _ hc hs ih =>
    unfold Sound at ih
    rw [hc, Option.getD_some, ← hs] at ih
    show m'.value = latest ((m'.outcomes.push o).toList.take (m'.current.getD _))
    rw [hc, Option.getD_some, ih, ← hs, Array.toList_push, List.take_append_of_le_length]
    simp
  | @close m' o _ hc hs ho ih =>
    unfold Sound at ih
    rw [hc, Option.getD_some] at ih
    have hall : m'.outcomes.toList = m'.outcomes.toList.take run ++ [o] := by
      have hget : m'.outcomes.toList[run]? = some o := by
        rw [Array.getElem?_toList]
        exact ho
      obtain ⟨hlt, hget⟩ := List.getElem?_eq_some_iff.mp hget
      rw [← hget, List.take_append_getElem, List.take_of_length_le]
      simp [hs]
    show _ = latest (m'.outcomes.toList.take m'.outcomes.size)
    rw [List.take_of_length_le (by simp), hall, latest_concat]
    cases o with
    | ok v => rfl
    | error f => exact ih

end Memo

end Memo

/-! ## Stages -/

/-- What holds of a store whose memo is known. -/
def memoGuard (cell : Nat) (m : Memo) : Guard where
  interp _ := True
  store s := cell < s.memos.size ∧ s.memo cell = m

/-- A call that has its outcome, and hands it over to its caller now or in the next turn. -/
inductive MemoUse.Concludes (use : MemoUse) (o : Except Fault Val) (i : Interp) : Step Unit → Prop
  | turn (s : Store) : Concludes use o i (.pause { reason := .turn } s fun _ t => use.conclude o i t)
  | ended (s : Store) : Concludes use o i (use.conclude o i s)

/-- A call that is given up now or in the next turn. -/
inductive MemoUse.GivenUp (i : Interp) : Step Unit → Prop
  | turn (s : Store) : GivenUp i (.pause { reason := .turn } s fun _ t => .done .exhausted i t)
  | ended (s : Store) : GivenUp i (.done .exhausted i s)

/-- Where a call stands: how it has come to its value, what the body that it runs has come to, and
what the call has come to. The memo and the interpreter of its caller are given. -/
inductive MemoStage (cell : Nat) (use : MemoUse) (start : Interp) (m : Memo) :
    MemoEntry → Option (Step Unit) → Step Unit → Prop
  /-- The value was there. -/
  | cached {v : Val} {k : Nat} {s : Store} (hv : m.outcome? k = some (.ok v)) :
    MemoStage cell use start m (.cached v) none (use.conclude (.ok v) start s)
  /-- The body is paused. -/
  | running {run : Nat} {w : Wait} {s : Store} {resume : Wake → Store → Step Unit}
      (hc : m.current = some run) (hs : m.outcomes.size = run)
      (hb : (Step.pause w s resume).Keeps (memoGuard cell m) fun _ => True) :
    MemoStage cell use start m (.begun run) (some (.pause w s resume))
      (use.follow cell (.pause w s resume))
  /-- The body has ended. -/
  | returning {run : Nat} {r : Result Unit} {i : Interp} {s t : Store}
      (hc : m.current = some run) (hs : m.outcomes.size = run) :
    MemoStage cell use start m (.begun run) (some (.done r i s))
      (.pause { reason := .turn } t fun _ u => use.gather cell r i u)
  /-- The run has ended, and is current still. -/
  | noted {run : Nat} {r : Result Unit} {i j : Interp} {s t : Store} {o : Except Fault Val}
      (hr : r.outcome? i = some (o, j)) (hc : m.current = some run)
      (hs : m.outcomes.size = run + 1) (ho : m.outcome? run = some o) :
    MemoStage cell use start m (.begun run) (some (.done r i s))
      (.pause { reason := .turn } t fun _ u =>
        use.hand o j (u.setMemo cell ((u.memo cell).close o)))
  /-- The run has ended, and others can begin one. -/
  | closed {run : Nat} {r : Result Unit} {i j : Interp} {s : Store} {o : Except Fault Val}
      {x : Step Unit} (hr : r.outcome? i = some (o, j)) (hc : m.current ≠ some run)
      (ho : m.outcome? run = some o) (hx : use.Concludes o j x) :
    MemoStage cell use start m (.begun run) (some (.done r i s)) x
  /-- The body was nested too deeply. -/
  | lost {run : Nat} {i : Interp} {s : Store} {x : Step Unit} (hc : m.current = some run)
      (hs : m.outcomes.size = run) (hx : MemoUse.GivenUp i x) :
    MemoStage cell use start m (.begun run) (some (.done .exhausted i s)) x
  /-- Another run was joined. -/
  | joining {run : Nat} {s : Store} (hk : run < m.outcomes.size ∨ m.current = some run) :
    MemoStage cell use start m (.joined run) none
      (.pause { reason := .turn } s fun _ t => use.await cell run start t)
  /-- That run has ended. -/
  | seen {run : Nat} {s : Store} {o : Except Fault Val} (ho : m.outcome? run = some o) :
    MemoStage cell use start m (.joined run) none
      (.pause { reason := .turn } s fun _ t => use.fetch cell run start t)
  /-- That run is waited for. -/
  | waiting {run : Nat} {s : Store} (hk : run < m.outcomes.size ∨ m.current = some run) :
    MemoStage cell use start m (.joined run) none
      (.pause { reason := .memoRun cell run } s fun _ t => use.fetch cell run start t)
  /-- The outcome of that run is handed over. -/
  | given {run : Nat} {o : Except Fault Val} {x : Step Unit} (ho : m.outcome? run = some o)
      (hx : use.Concludes o start x) : MemoStage cell use start m (.joined run) none x

/-- A call that has begun a run has gone on: it stands somewhere, and only it has changed the
memo. -/
structure MemoArrives (cell : Nat) (use : MemoUse) (start : Interp) (run : Nat) (m : Memo)
    (body x : Step Unit) : Prop where
  bound : cell < x.store.memos.size
  goes : m.Goes run (x.store.memo cell)
  stage : MemoStage cell use start (x.store.memo cell) (.begun run) (some body) x

section Stages

variable {cell run : Nat} {use : MemoUse} {start i j : Interp} {m m' : Memo} {s t : Store}
  {r : Result Unit} {o : Except Fault Val} {body x : Step Unit} {entry : MemoEntry}

theorem Step.store_afterTurn {α : Type} {f : Store → Step α} (h : (f s).store = s) :
    (Step.afterTurn s f).store = s := by
  unfold Step.afterTurn
  split
  · rfl
  · exact h

theorem MemoUse.store_conclude : (use.conclude o i s).store = s := by
  cases o <;> rfl

theorem MemoUse.wait?_conclude : (use.conclude o i s).wait? = none := by
  cases o <;> rfl

theorem MemoUse.store_hand : (use.hand o i s).store = s := Step.store_afterTurn store_conclude

theorem MemoUse.concludes_hand : use.Concludes o i (use.hand o i s) := by
  unfold hand Step.afterTurn
  split
  · exact .turn s
  · exact .ended s

theorem MemoUse.store_giveUp : (giveUp i s).store = s := Step.store_afterTurn rfl

theorem MemoUse.givenUp_giveUp : GivenUp i (giveUp i s) := by
  unfold giveUp Step.afterTurn
  split
  · exact .turn s
  · exact .ended s

theorem Store.memo_setMemo_self {m : Memo} (h : cell < s.memos.size) :
    (s.setMemo cell m).memo cell = m := by
  rw [memo_setMemo, if_pos ⟨rfl, h⟩]

theorem Store.size_setMemo (m : Memo) : (s.setMemo cell m).memos.size = s.memos.size := by
  simp [setMemo]

namespace MemoArrives

theorem trans {body' : Step Unit} {m : Memo} (hg : m.Goes run m')
    (h : MemoArrives cell use start run m' body' x) : MemoArrives cell use start run m body' x :=
  ⟨h.bound, hg.trans h.goes, h.stage⟩

/-- A call that leaves the store alone. -/
theorem stay (hx : x.store = t) (hb : cell < t.memos.size)
    (h : MemoStage cell use start (t.memo cell) (.begun run) (some body) x) :
    MemoArrives cell use start run (t.memo cell) body x := by
  subst hx
  exact ⟨hb, .refl, h⟩

/-- The run that was noted is closed. -/
theorem close (hr : r.outcome? i = some (o, j)) (hb : cell < t.memos.size)
    (hc : (t.memo cell).current = some run) (hs : (t.memo cell).outcomes.size = run + 1)
    (ho : (t.memo cell).outcome? run = some o) :
    MemoArrives cell use start run (t.memo cell) (.done r i s)
      (use.hand o j (t.setMemo cell ((t.memo cell).close o))) := by
  have hmemo : ((use.hand o j (t.setMemo cell ((t.memo cell).close o))).store).memo cell =
      (t.memo cell).close o := by
    rw [MemoUse.store_hand, Store.memo_setMemo_self hb]
  refine ⟨?_, ?_, ?_⟩
  · rwa [MemoUse.store_hand, Store.size_setMemo]
  · rw [hmemo]
    exact .close .refl hc hs ho
  · rw [hmemo]
    exact .closed hr nofun ho MemoUse.concludes_hand

/-- The end of a run is noted. -/
theorem note (hr : r.outcome? i = some (o, j)) (hb : cell < t.memos.size)
    (hc : (t.memo cell).current = some run) (hs : (t.memo cell).outcomes.size = run) :
    MemoArrives cell use start run (t.memo cell) (.done r i s) (use.note cell o j t) := by
  have hb' : cell < (t.setMemo cell ((t.memo cell).finish o)).memos.size := by
    rwa [Store.size_setMemo]
  have hmemo := Store.memo_setMemo_self (m := (t.memo cell).finish o) hb
  have ho : ((t.memo cell).finish o).outcome? run = some o := by
    rw [Memo.outcome?_finish, if_pos hs.symm]
  have hsize : ((t.memo cell).finish o).outcomes.size = run + 1 := by
    simp [Memo.finish, hs]
  have hgoes : (t.memo cell).Goes run ((t.memo cell).finish o) := .finish o .refl hc hs
  unfold MemoUse.note Step.afterTurn
  split
  · refine ⟨hb', ?_, ?_⟩
    · rw [Step.store, hmemo]
      exact hgoes
    · rw [Step.store, hmemo]
      exact .noted hr hc hsize ho
  · generalize t.setMemo cell ((t.memo cell).finish o) = u at hb' hmemo
    rw [← hmemo] at ho hsize hgoes
    exact (close hr hb' (hmemo ▸ hc) hsize ho).trans hgoes

theorem gather (hb : cell < t.memos.size) (hc : (t.memo cell).current = some run)
    (hs : (t.memo cell).outcomes.size = run) :
    MemoArrives cell use start run (t.memo cell) (.done r i s) (use.gather cell r i t) := by
  unfold MemoUse.gather
  cases hr : r.outcome? i with
  | some p => exact note hr hb hc hs
  | none =>
    cases r with
    | ok =>
      unfold Result.outcome? at hr
      dsimp only at hr
      split at hr <;> cases hr
    | fault f => cases hr
    | exhausted => exact stay MemoUse.store_giveUp hb (.lost hc hs MemoUse.givenUp_giveUp)

/-- The body has begun, or has gone on. -/
theorem follow {m : Memo} (hk : x.Keeps (memoGuard cell m) fun _ => True)
    (hc : m.current = some run) (hs : m.outcomes.size = run) :
    MemoArrives cell use start run m x (use.follow cell x) := by
  cases x with
  | pause w s resume =>
    cases hk with
    | pause hstore h =>
      obtain ⟨hb, rfl⟩ := hstore
      exact ⟨hb, .refl, .running hc hs (.pause ⟨hb, rfl⟩ h)⟩
  | done r i s =>
    obtain ⟨hb, rfl⟩ : cell < s.memos.size ∧ s.memo cell = m := by
      cases hk with
      | ok _ _ h => exact h
      | fault _ h => exact h
      | exhausted h => exact h
    rw [MemoUse.follow]
    unfold Step.afterTurn
    split
    · exact ⟨hb, .refl, .returning hc hs⟩
    · exact gather hb hc hs

end MemoArrives

/-- A call that has begun a run is resumed. -/
theorem MemoStage.wake_begun {wake : Wake}
    (h : MemoStage cell use start (t.memo cell) (.begun run) (some body) x)
    (hx : x.wait?.isSome = true) (hb : cell < t.memos.size) :
    MemoArrives cell use start run (t.memo cell) (body.wake wake t) (x.wake wake t) := by
  cases h with
  | running hc hs hbody =>
    cases hbody with
    | pause _ h => exact .follow (h wake t ⟨hb, rfl⟩) hc hs
  | returning hc hs => exact .gather hb hc hs
  | noted hr hc hs ho => exact .close hr hb hc hs ho
  | closed hr hc ho hx' =>
    cases hx' with
    | turn s => exact .stay MemoUse.store_conclude hb (.closed hr hc ho (.ended t))
    | ended s =>
      rw [MemoUse.wait?_conclude] at hx
      cases hx
  | lost hc hs hx' =>
    cases hx' with
    | turn s => exact ⟨hb, .refl, .lost hc hs (.ended t)⟩
    | ended s => cases hx

/-- Whether a paused task is resumed in order: what it waits for is there, or its time is up. -/
def Wake.IsDue (wake : Wake) (w : Wait) (idle : Bool) (s : Store) : Prop :=
  match wake with
  | .ready => w.isReady idle s = true
  | .expired => w.deadline.isSome = true

/-- A call that has joined a run comes upon its outcome. -/
theorem MemoStage.fetch (ho : (t.memo cell).outcome? run = some o) :
    (use.fetch cell run start t).store = t ∧
      MemoStage cell use start (t.memo cell) (.joined run) none (use.fetch cell run start t) := by
  unfold MemoUse.fetch
  rw [ho]
  exact ⟨MemoUse.store_hand, .given ho MemoUse.concludes_hand⟩

/-- A call that has joined a run looks whether it has ended. -/
theorem MemoStage.await
    (hk : run < (t.memo cell).outcomes.size ∨ (t.memo cell).current = some run) :
    (use.await cell run start t).store = t ∧
      MemoStage cell use start (t.memo cell) (.joined run) none (use.await cell run start t) := by
  unfold MemoUse.await
  split
  · rename_i hsome
    obtain ⟨o, ho⟩ := Option.isSome_iff_exists.mp hsome
    unfold Step.afterTurn
    split
    · exact ⟨rfl, .seen ho⟩
    · exact fetch ho
  · exact ⟨rfl, .waiting hk⟩

/-- A call joins a run. -/
theorem MemoStage.join
    (hk : run < (t.memo cell).outcomes.size ∨ (t.memo cell).current = some run) :
    (Step.afterTurn t (use.await cell run start)).store = t ∧
      MemoStage cell use start (t.memo cell) (.joined run) none
        (Step.afterTurn t (use.await cell run start)) := by
  unfold Step.afterTurn
  split
  · exact ⟨rfl, .joining hk⟩
  · exact await hk

/-- A call that has joined a run is resumed. -/
theorem MemoStage.wake_joined {wake : Wake} {w : Wait} {idle : Bool} {body : Option (Step Unit)}
    (h : MemoStage cell use start (t.memo cell) (.joined run) body x) (hx : x.wait? = some w)
    (hdue : wake.IsDue w idle t) :
    (x.wake wake t).store = t ∧
      MemoStage cell use start (t.memo cell) (.joined run) body (x.wake wake t) := by
  cases h with
  | joining hk => exact await hk
  | seen ho => exact fetch ho
  | waiting hk =>
    cases hx
    cases wake with
    | expired => cases hdue
    | ready =>
      obtain ⟨o, ho⟩ := Option.isSome_iff_exists.mp hdue
      exact fetch ho
  | given ho hx' =>
    cases hx' with
    | turn s => exact ⟨MemoUse.store_conclude, .given ho (.ended t)⟩
    | ended s =>
      rw [MemoUse.wait?_conclude] at hx
      cases hx

/-- A call stays where it stands while another one goes on with its run. -/
theorem MemoStage.goes {body : Option (Step Unit)} (h : MemoStage cell use start m entry body x)
    (hne : entry ≠ .begun run) (hg : m.Goes run m') : MemoStage cell use start m' entry body x := by
  -- nothing changes for the memo of a run of its own
  have hsame : ∀ {k}, entry = .begun k → m.current = some k → m' = m := fun he hk =>
    hg.eq_or_current.resolve_right fun hrun =>
      hne (he.trans (congrArg _ (Option.some.inj (hk.symm.trans hrun))))
  cases h with
  | cached hv => exact .cached (hg.outcome? hv)
  | running hc hs hb => exact hsame rfl hc ▸ .running hc hs hb
  | returning hc hs => exact hsame rfl hc ▸ .returning hc hs
  | noted hr hc hs ho => exact hsame rfl hc ▸ .noted hr hc hs ho
  | closed hr hc ho hx => exact .closed hr (fun h => hc (hg.current h)) (hg.outcome? ho) hx
  | lost hc hs hx => exact hsame rfl hc ▸ .lost hc hs hx
  | joining hk => exact .joining (hg.known hk)
  | seen ho => exact .seen (hg.outcome? ho)
  | waiting hk => exact .waiting (hg.known hk)
  | given ho hx => exact .given (hg.outcome? ho) hx

/-- A call stays where it stands while another one begins a run. -/
theorem MemoStage.enter {body : Option (Step Unit)} (h : MemoStage cell use start m entry body x)
    (hm : m.current = none) : MemoStage cell use start m.enter.2 entry body x := by
  have henter : m.enter.2 = { m with current := some m.outcomes.size } := by
    rw [Memo.enter, hm]
  have hnone : ∀ {k}, m.current = some k → False := fun hk => Option.some_ne_none _ (hk.symm.trans hm)
  rw [henter]
  cases h with
  | cached hv => exact .cached hv
  | running hc => exact (hnone hc).elim
  | returning hc => exact (hnone hc).elim
  | noted hr hc => exact (hnone hc).elim
  | closed hr hc ho hx =>
    refine .closed hr (fun h => ?_) ho hx
    exact Nat.ne_of_gt (Memo.lt_of_outcome? ho) (Option.some.inj h)
  | lost hc => exact (hnone hc).elim
  | joining hk => exact .joining (.inl (hk.resolve_right hnone))
  | seen ho => exact .seen ho
  | waiting hk => exact .waiting (.inl (hk.resolve_right hnone))
  | given ho hx => exact .given ho hx

/-- Where no run is current, all runs that were begun have ended. -/
theorem MemoStage.lt_of_begun {body : Option (Step Unit)}
    (h : MemoStage cell use start m (.begun run) body x) (hm : m.current = none) :
    run < m.outcomes.size := by
  cases h with
  | running hc => cases hm.symm.trans hc
  | returning hc => cases hm.symm.trans hc
  | noted _ hc => cases hm.symm.trans hc
  | closed _ _ ho => exact Memo.lt_of_outcome? ho
  | lost hc => cases hm.symm.trans hc

end Stages

end Wordstack
