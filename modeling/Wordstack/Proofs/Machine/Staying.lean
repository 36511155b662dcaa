import Wordstack.Proofs.Machine.CodeProperty
import Wordstack.Proofs.Machine.MemoStages

/-!
# Tasks that nobody else runs beside

What holds of the store wherever a task ends or pauses that is on its own.

- **Steps** (`Step.Stays`): along the way that `Step.finish` takes, with one lemma for each operation
  on steps.
- **Code** (`CodeProperty.staying`): all code stays where its operations and the runs of memo words
  stay.
- **Runs in progress** (`CodeProperty.busy`): while the word behind a memo word is being run, its memo
  stays as it is.
-/

namespace Wordstack

/-! ## Steps -/

/-- The property holds of the store where a step ends that nobody else runs beside, and wherever it
pauses on the way. -/
inductive Step.Stays {α : Type} (P : Store → Prop) : Step α → Prop
  | done {r : Result α} {i : Interp} {s : Store} (hs : P s) : Stays P (.done r i s)
  | ready {w : Wait} {s : Store} {resume : Wake → Store → Step α} (hs : P s)
      (hw : w.isReady true s = true) (h : Stays P (resume .ready s)) : Stays P (.pause w s resume)
  | expired {w : Wait} {s : Store} {resume : Wake → Store → Step α} (hs : P s)
      (hw : w.isReady true s = false) (hd : w.deadline.isSome = true)
      (h : Stays P (resume .expired s)) : Stays P (.pause w s resume)
  | hung {w : Wait} {s : Store} {resume : Wake → Store → Step α} (hs : P s)
      (hw : w.isReady true s = false) (hd : w.deadline = none) : Stays P (.pause w s resume)

namespace Step

variable {α β : Type} {P Q : Store → Prop} {x : Step α} {r : Result α} {i j : Interp} {s t : Store}
  {w : Wait} {resume : Wake → Store → Step α}

theorem finish_of_ready (hw : w.isReady true s = true) :
    (pause w s resume).finish = (resume .ready s).finish := by
  rw [finish, if_pos hw]

theorem finish_of_expired (hw : w.isReady true s = false) (hd : w.deadline.isSome = true) :
    (pause w s resume).finish = (resume .expired s).finish := by
  rw [finish, hw, if_neg Bool.false_ne_true, if_pos hd]

theorem finish_of_hung (hw : w.isReady true s = false) (hd : w.deadline = none) :
    (pause w s resume).finish = .hung s := by
  rw [finish, hw, hd]
  rfl

namespace Stays

theorem mono (h : x.Stays P) (hPQ : ∀ s, P s → Q s) : x.Stays Q := by
  induction h with
  | done hs => exact .done (hPQ _ hs)
  | ready hs hw _ ih => exact .ready (hPQ _ hs) hw ih
  | expired hs hw hd _ ih => exact .expired (hPQ _ hs) hw hd ih
  | hung hs hw hd => exact .hung (hPQ _ hs) hw hd

theorem of_finish (h : x.Stays P) (hx : x.finish = .ended r i s) : P s := by
  induction h with
  | done hs =>
    cases hx
    exact hs
  | ready _ hw _ ih => exact ih ((finish_of_ready hw).symm.trans hx)
  | expired _ hw hd _ ih => exact ih ((finish_of_expired hw hd).symm.trans hx)
  | hung _ hw hd =>
    rw [finish_of_hung hw hd] at hx
    cases hx

/-- What goes on begins where the first step has come to. -/
theorem bind_finish {f : α → Task β} (h : x.Stays P)
    (hf : ∀ a i s, x.finish = .ended (.ok a) i s → (f a i s).Stays P) : (x.bind f).Stays P := by
  induction h with
  | @done r i s hs =>
    cases r with
    | ok a => exact hf a i s rfl
    | fault f => exact .done hs
    | exhausted => exact .done hs
  | ready hs hw _ ih =>
    rw [finish_of_ready hw] at hf
    exact .ready hs hw (ih hf)
  | expired hs hw hd _ ih =>
    rw [finish_of_expired hw hd] at hf
    exact .expired hs hw hd (ih hf)
  | hung hs hw hd => exact .hung hs hw hd

theorem bind {f : α → Task β} (h : x.Stays P) (hf : ∀ a i s, P s → (f a i s).Stays P) :
    (x.bind f).Stays P :=
  h.bind_finish fun a i s hx => hf a i s (h.of_finish hx)

theorem attempt (h : x.Stays P) : x.attempt.Stays P := by
  induction h with
  | @done r i s hs => cases r <;> exact .done hs
  | ready hs hw _ ih => exact .ready hs hw ih
  | expired hs hw hd _ ih => exact .expired hs hw hd ih
  | hung hs hw hd => exact .hung hs hw hd

theorem later (h : x.Stays P) : x.later.Stays P := by
  induction h with
  | done hs =>
    unfold Step.later
    split
    · exact .ready hs rfl (.done hs)
    · exact .done hs
  | ready hs hw _ ih => exact .ready hs hw ih
  | expired hs hw hd _ ih => exact .expired hs hw hd ih
  | hung hs hw hd => exact .hung hs hw hd

theorem handedOn (h : x.Stays P) : x.handedOn.Stays P := by
  cases x with
  | done r i s => exact h.later.later
  | pause w s resume => exact h.later

theorem unlessRaised (h : x.Stays P) : x.unlessRaised.Stays P := by
  unfold Step.unlessRaised
  split
  · exact h
  · exact h.later

/-- A step that waits for ever is given up once its deadline is missed, where it has paused. -/
theorem within (h : x.Stays P) (ms : Binary64) (i : Interp) : (x.within ms i).Stays P := by
  have hexpired : ∀ {w : Wait} {s : Store} {next : Step (Option α)}, P s →
      (isFirst ms w.deadline = false → next.Stays P) →
      (if Wake.expired = .expired ∧ isFirst ms w.deadline then .done (.ok none) i s else next :
        Step (Option α)).Stays P := by
    intro w s next hs hnext
    cases hfirst : isFirst ms w.deadline with
    | true =>
      rw [if_pos ⟨rfl, rfl⟩]
      exact .done hs
    | false =>
      rw [if_neg fun h => Bool.false_ne_true h.2]
      exact hnext hfirst
  induction h with
  | @done r i s hs => cases r <;> exact .done hs
  | ready hs hw _ ih =>
    refine .ready hs hw ?_
    rw [if_neg fun h => nomatch h.1]
    exact ih
  | expired hs hw _ _ ih => exact .expired hs hw rfl (hexpired hs fun _ => ih)
  | @hung w s resume hs hw hd =>
    refine .expired hs hw rfl (hexpired hs fun hfirst => ?_)
    rw [hd] at hfirst
    cases hfirst

theorem restoring (h : x.Stays P) (i : Interp) : (x.restoring i).Stays P := by
  induction h with
  | @done r i s hs => cases r <;> exact .done hs
  | ready hs hw _ ih => exact .ready hs hw ih
  | expired hs hw hd _ ih => exact .expired hs hw hd ih
  | hung hs hw hd => exact .hung hs hw hd

/-- A pause of a task that is on its own. -/
theorem wait (reason : Reason) (hs : P s) : (Task.wait reason i s).Stays P := by
  cases hw : ({ reason } : Wait).isReady true s with
  | true => exact .ready hs hw (.done hs)
  | false => exact .hung hs hw rfl

end Stays

end Step

/-! ## Code -/

/-- Tasks that stay in a property of stores wherever they are begun in it. -/
def Task.Stays (P : Store → Prop) {α : Type} (x : Task α) : Prop :=
  ∀ i s, P s → (x i s).Stays P

/-- A property of stores that depends on memos only, but for the identities that were given out, and
that new memos do not disturb. -/
structure Store.MemoProperty (P : Store → Prop) : Prop where
  congr : ∀ {s t : Store}, s.LeavesMemos t → P s → P t
  addMemoWords : ∀ (m : Nat) (w : Word) {s : Store}, P s → P (s.addMemoWords m w)

/-- All code stays in such a property if the runs of memo words do. -/
def CodeProperty.staying {P : Store → Prop} (hP : Store.MemoProperty P) (machine : Nested → Prop)
    (hrefresh : ∀ {e : Nested} (cell : Nat) {w : Word}, machine e →
      (Wordstack.execute e w).Stays P → (Wordstack.refresh cell (Wordstack.execute e w)).Stays P) :
    CodeProperty where
  Holds := Task.Stays P
  Machine := machine
  atOnce := fun hx i s hs => by
    obtain ⟨r, j, t, h, ht⟩ := hx i s
    rw [h]
    exact .done (hP.congr ht hs)
  wait := fun reason _ _ hs => .wait reason hs
  bind := fun hx hf i s hs => (hx i s hs).bind fun a => hf a
  attempt := fun hx i s hs => (hx i s hs).attempt
  call := fun hx i s hs => (hx i s hs).later
  handOn := fun hx i s hs => (hx i s hs).handedOn
  callCode := fun waits _ hx i s hs => by
    cases waits with
    | true => exact (hx i s hs).later
    | false => exact (hx i s hs).unlessRaised
  within := fun ms _ hx i s hs => by
    unfold Task.within
    split
    · exact (hx i s hs).within ms i
    · exact (hx i s hs).bind fun a _ _ ht => .done ht
  onOther := fun other _ hx i s hs => (hx other s hs).restoring i
  addMemoWords := fun m w _ _ hs => .done (hP.addMemoWords m w hs)
  refresh := hrefresh

/-- The same for code that runs no memo words. -/
def CodeProperty.plain {P : Store → Prop} (hP : Store.MemoProperty P) : CodeProperty :=
  staying hP (fun _ => False) fun _ _ h => h.elim

section Refresh

variable {P : Store → Prop} {c : Nat}

/-- The run of a memo word stays in what neither the word behind it nor a change of its memo
disturbs. -/
theorem Task.Stays.refresh (hP : Store.MemoProperty P)
    (hset : ∀ (m : Memo) {s : Store}, P s → P (s.setMemo c m)) {run : Task Unit}
    (hrun : run.Stays P) : (refresh c run).Stays P := by
  let K := CodeProperty.plain hP
  have hupdate : ∀ f : Memo → Memo,
      K.Holds (Task.updateStore fun s => s.setMemo c (f (s.memo c))) :=
    fun f _ _ hs => .done (hset _ hs)
  have hconclude : ∀ o, K.Holds (Task.conclude c o) := fun o =>
    K.bind (hupdate fun m => m.finish o) fun _ => K.bind K.turn fun _ =>
      K.bind (hupdate fun m => m.close o) fun _ => CodeProperty.lift o
  intro i s hs
  cases hcurrent : (s.memo c).current with
  | some number =>
    rw [refresh_of_running hcurrent]
    exact K.join c number i _ (hset _ hs)
  | none =>
    rw [refresh_of_idle hcurrent]
    have hbody : K.Holds (Task.attempt (do Task.call run; Task.pop)) :=
      K.attempt (K.bind (K.call hrun) fun _ => K.pop)
    exact K.bind hbody hconclude i _ (hset _ hs)

end Refresh

/-! ## Runs in progress -/

/-- What a memo is, and that it is there. -/
def Store.HasMemo (cell : Nat) (m : Memo) (s : Store) : Prop :=
  cell < s.memos.size ∧ s.memo cell = m

section Busy

variable {cell c number : Nat} {m : Memo} {i : Interp} {s t : Store}

namespace Store

theorem memo_congr (h : t.memos = s.memos) (c : Nat) : t.memo c = s.memo c := by
  unfold memo
  rw [h]

namespace HasMemo

theorem setMemo (hc : c ≠ cell) (m' : Memo) (hs : s.HasMemo cell m) :
    (s.setMemo c m').HasMemo cell m := by
  refine ⟨(size_setMemo m').symm ▸ hs.1, ?_⟩
  rw [memo_setMemo, if_neg fun h => hc h.1.symm]
  exact hs.2

theorem setMemo_self (m' : Memo) (hs : s.HasMemo cell m) : (s.setMemo cell m').HasMemo cell m' :=
  ⟨(size_setMemo m').symm ▸ hs.1, memo_setMemo_self hs.1⟩

theorem property (cell : Nat) (m : Memo) : MemoProperty (HasMemo cell m) where
  congr h hs := ⟨h.memos ▸ hs.1, (memo_congr h.memos cell).trans hs.2⟩
  addMemoWords n w s hs := by
    have hpush : (s.addMemoWords n w).memos = s.memos.push {} := rfl
    have hmemo := hs.2
    refine ⟨?_, ?_⟩
    · rw [hpush, Array.size_push]
      exact Nat.lt_succ_of_lt hs.1
    · unfold memo at hmemo ⊢
      rw [hpush, Array.getElem?_push, if_neg (Nat.ne_of_lt hs.1)]
      exact hmemo

end HasMemo

end Store

/-- Whoever wants a fresh value while there is a current run waits for it, and the runs of other memo
words are noted elsewhere. -/
theorem Task.Stays.refresh_busy (hm : m.current = some number) (c : Nat) {run : Task Unit}
    (hrun : run.Stays (Store.HasMemo cell m)) :
    (Wordstack.refresh c run).Stays (Store.HasMemo cell m) := by
  have hP := Store.HasMemo.property cell m
  by_cases hc : c = cell
  · subst hc
    intro i s hs
    have hcurrent : (s.memo c).current = some number := by rw [hs.2, hm]
    rw [refresh_of_running hcurrent]
    exact (CodeProperty.plain hP).join c number i _ (hs.2 ▸ hs.setMemo_self _)
  · exact hrun.refresh hP fun m' _ hs => hs.setMemo hc m'

/-- While a run of a memo word is in progress its memo stays as it is. -/
def CodeProperty.busy (cell : Nat) (hm : m.current = some number) : CodeProperty :=
  staying (Store.HasMemo.property cell m) (fun _ => True) fun c _ _ hrun =>
    Task.Stays.refresh_busy hm c hrun

end Busy

end Wordstack
