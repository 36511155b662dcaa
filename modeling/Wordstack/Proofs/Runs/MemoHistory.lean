import Wordstack.Proofs.Bridge.CodeProperty
import Wordstack.Proofs.Machine.Calls
import Wordstack.Proofs.Machine.MemoCalls
import Wordstack.Proofs.Machine.Staying

/-!
# Histories of memo words

What the calls of a memo word come to one after another, whatever other code is run between them.

- **Memos during a run** (`stays_execute`) and after it (`Store.HasMemo.conclude`).
- **Histories** (`MemoRun`, `MemoHistory`): the outcomes of the runs of the word behind it, in order.
  A memo word that is added begins one (`MemoHistory.of_addMemoWords`).
- **Invariant** (`MemoHistory.memo`): what is remembered is the value of the latest run to succeed.
- **Code** (`MemoHistory.Known`): whatever code is run, the history goes on.
- **Calls** (`MemoCoherent`): what each of the three words does.
-/

namespace Wordstack

/-! ## Memos -/

section Memos

variable {depth cell : Nat} {w : Word} {m : Memo} {s : Store}

theorem Store.hasMemo_beginMemo (h : cell < s.memos.size) :
    (s.beginMemo cell).HasMemo cell
      { s.memo cell with current := some (s.memo cell).outcomes.size } :=
  HasMemo.setMemo_self _ ⟨h, rfl⟩

theorem Store.HasMemo.conclude (h : s.HasMemo cell m) (o : Except Fault Val) :
    (s.conclude cell o).HasMemo cell ((m.finish o).close o) := by
  have hfinish := h.setMemo_self (m.finish o)
  unfold Store.conclude
  rw [h.2]
  simp only [hfinish.2]
  exact hfinish.setMemo_self _

/-- While a run of a memo word is in progress no code changes the memo. -/
theorem stays_execute {number : Nat} (hm : m.current = some number) :
    (execute (nested depth) w).Stays (Store.HasMemo cell m) :=
  (CodeProperty.busy cell hm).execute (CodeProperty.holdsNested (fun _ => trivial) depth) w

end Memos

/-! ## Histories -/

/-- What is remembered once a run has come to an outcome. -/
def Memo.valueAfter (value : Option Val) : Except Fault Val → Option Val
  | .ok v => some v
  | .error _ => value

/-- A call of a memo word runs the word behind it: what the run comes to, and where the call ends. -/
inductive MemoRun (cell : Nat) (s : Store) (o : Except Fault Val) (t : Store) : Prop
  | call {depth : Nat} {use : MemoUse} {label : WordLabel} {w : Word} {i j k l : Interp} {u : Store}
      {r r' : Result Unit} (hfresh : use.IsFresh (s.memo cell))
      (hbody : (execute (nested depth) w).finish i (s.beginMemo cell) = .ended r k u)
      (ho : r.outcome? k = some (o, l))
      (hcall : (execute (nested depth) (use.word label cell w)).finish i s = .ended r' j t)

/-- What has become of a memo word: the outcomes of the runs of the word behind it, in order. -/
inductive MemoHistory (cell : Nat) : List (Except Fault Val) → Store → Prop
  /-- Nobody has called it yet. -/
  | new {s : Store} (hs : s.HasMemo cell {}) : MemoHistory cell [] s
  /-- Other code was run. -/
  | other {os : List (Except Fault Val)} {s t : Store} (h : MemoHistory cell os s)
      (ht : t.HasMemo cell (s.memo cell)) : MemoHistory cell os t
  /-- A call has found a value. -/
  | found {os : List (Except Fault Val)} {s t : Store} {depth : Nat} {use : MemoUse}
      {label : WordLabel} {w : Word} {i j : Interp} {r : Result Unit} (h : MemoHistory cell os s)
      (hfound : ¬use.IsFresh (s.memo cell))
      (hcall : (execute (nested depth) (use.word label cell w)).finish i s = .ended r j t) :
      MemoHistory cell os t
  /-- A call has run the word behind. -/
  | ran {os : List (Except Fault Val)} {s t : Store} {o : Except Fault Val}
      (h : MemoHistory cell os s) (hrun : MemoRun cell s o t) : MemoHistory cell (os ++ [o]) t

section History

variable {e : Nested} {depth cell : Nat} {use : MemoUse} {label : WordLabel} {w : Word} {m : Memo}
  {i j k l : Interp} {s t u : Store} {r : Result Unit} {o : Except Fault Val}
  {os os' : List (Except Fault Val)}

theorem Memo.latest_snoc (os : List (Except Fault Val)) (o : Except Fault Val) :
    latest (os ++ [o]) = valueAfter (latest os) o := by
  rw [latest_concat]
  cases o <;> rfl

theorem MemoUse.exists_finish_conclude (use : MemoUse) (o : Except Fault Val) (i : Interp)
    (s : Store) : ∃ r j, (use.conclude o i s).finish = .ended r j s := by
  cases o with
  | ok v => exact ⟨_, _, rfl⟩
  | error f => exact ⟨_, _, rfl⟩

theorem finish_memoUse_ran (hfresh : use.IsFresh (s.memo cell))
    (hidle : (s.memo cell).current = none)
    (hbody : (execute e w).finish i (s.beginMemo cell) = .ended r k u)
    (ho : r.outcome? k = some (o, l)) :
    (execute e (use.word label cell w)).finish i s =
      (use.conclude o l (u.conclude cell o)).finish := by
  rw [finish_memoUse_begun hfresh hidle, hbody]
  simp only [Outcome.concluded, ho]

/-- Where a run has an outcome, the word behind the memo word has come to it. -/
theorem Result.exists_of_finish_attempt {run : Task Unit}
    (h : (Task.attempt (do Task.call run; Task.pop)).finish i s = .ended (.ok o) j t) :
    ∃ r k, run.finish i s = .ended r k t ∧ r.outcome? k = some (o, j) := by
  rw [Task.finish_attempt, Task.finish_bind, Task.finish_call] at h
  cases hrun : run.finish i s with
  | hung u =>
    rw [hrun] at h
    cases h
  | ended r k u =>
    rw [hrun] at h
    cases r with
    | ok a =>
      change ((Task.pop k u).finish).attempt = _ at h
      refine ⟨.ok a, k, ?_⟩
      unfold Task.pop at h
      unfold Result.outcome?
      cases hpop : k.stack.pop? with
      | some p =>
        simp only [hpop] at h
        cases h
        exact ⟨rfl, rfl⟩
      | none =>
        simp only [hpop] at h
        cases h
        exact ⟨rfl, rfl⟩
    | fault f =>
      cases h
      exact ⟨_, _, rfl, rfl⟩
    | exhausted => cases h

/-- The memo once a run has ended and its caller has taken over the outcome. -/
theorem MemoRun.hasMemo (h : MemoRun cell s o t) (hs : cell < s.memos.size)
    (hidle : (s.memo cell).current = none) :
    ∃ m, t.HasMemo cell m ∧ m.current = none ∧
      m.value = Memo.valueAfter (s.memo cell).value o := by
  obtain ⟨hfresh, hbody, ho, hcall⟩ := h
  rename_i depth use label w i j k l u r r'
  have hu := (stays_execute rfl i _ (Store.hasMemo_beginMemo hs)).of_finish hbody
  rw [finish_memoUse_ran hfresh hidle hbody ho] at hcall
  obtain ⟨r₁, j₁, hend⟩ := use.exists_finish_conclude o l (u.conclude cell o)
  rw [hend] at hcall
  cases hcall
  refine ⟨_, hu.conclude o, rfl, ?_⟩
  cases o <;> rfl

/-- A memo word that has just been added has no history. -/
theorem MemoHistory.of_addMemoWords (s : Store) (n : Nat) (w : Word) :
    MemoHistory s.memos.size [] (s.addMemoWords n w) := by
  have hpush : (s.addMemoWords n w).memos = s.memos.push {} := rfl
  refine .new ⟨?_, ?_⟩
  · rw [hpush, Array.size_push]
    exact Nat.lt_succ_self _
  · unfold Store.memo
    rw [hpush, Array.getElem?_push_size]
    rfl

/-- What holds of the memo of a memo word after its calls: no run is current, and the remembered value
is that of the latest run to succeed. -/
theorem MemoHistory.memo (h : MemoHistory cell os s) :
    cell < s.memos.size ∧ (s.memo cell).current = none ∧ (s.memo cell).value = Memo.latest os := by
  induction h with
  | new hs => exact ⟨hs.1, hs.2 ▸ rfl, hs.2 ▸ rfl⟩
  | other _ ht ih =>
    obtain ⟨-, hcurrent, hvalue⟩ := ih
    exact ⟨ht.1, ht.2 ▸ hcurrent, ht.2 ▸ hvalue⟩
  | @found os s t depth use label w i j r _ hfound hcall ih =>
    obtain ⟨v, rfl, hv⟩ := (use.cached_or_isFresh _).resolve_right hfound
    rw [finish_memoUse_cached hv] at hcall
    cases hcall
    exact ih
  | ran _ hrun ih =>
    obtain ⟨hs, hcurrent, hvalue⟩ := ih
    obtain ⟨m, ht, hidle, hm⟩ := hrun.hasMemo hs hcurrent
    refine ⟨ht.1, ht.2 ▸ hidle, ?_⟩
    rw [ht.2, hm, hvalue, Memo.latest_snoc]

/-! ## Code -/

/-- What is known of a memo word from a history on: the history has gone on, unless a run is current.
A run stays current for good if its caller was given up, as a request is that takes too long. -/
structure MemoHistory.Known (cell : Nat) (os : List (Except Fault Val)) (s : Store) : Prop where
  bound : cell < s.memos.size
  goesOn : (s.memo cell).current = none → ∃ os', MemoHistory cell (os ++ os') s

namespace MemoHistory.Known

theorem of_hasMemo (h : Known cell os s) (ht : t.HasMemo cell (s.memo cell)) : Known cell os t where
  bound := ht.1
  goesOn hidle := by
    rw [ht.2] at hidle
    obtain ⟨os', h'⟩ := h.goesOn hidle
    exact ⟨os', h'.other ht⟩

theorem of_current {number : Nat} (hs : s.HasMemo cell m) (hm : m.current = some number) :
    Known cell os s where
  bound := hs.1
  goesOn hidle := by
    rw [hs.2, hm] at hidle
    cases hidle

theorem property (cell : Nat) (os : List (Except Fault Val)) :
    Store.MemoProperty (Known cell os) where
  congr h hs := hs.of_hasMemo ((Store.HasMemo.property cell _).congr h ⟨hs.bound, rfl⟩)
  addMemoWords n w _ hs :=
    hs.of_hasMemo ((Store.HasMemo.property cell _).addMemoWords n w ⟨hs.bound, rfl⟩)

/-- Taking over an outcome goes by a store in which the run is current still. -/
theorem conclude (hs : s.HasMemo cell m) {number : Nat} (hm : m.current = some number)
    (h : Known cell os (s.conclude cell o)) :
    (Task.conclude cell o i s).Stays (Known cell os) := by
  have hfinish := hs.setMemo_self (m.finish o)
  have hnoted : Known cell os (s.setMemo cell ((s.memo cell).finish o)) := by
    rw [hs.2]
    exact of_current hfinish hm
  have hlift : (Task.lift o i (s.conclude cell o)).Stays (Known cell os) := by
    cases o with
    | ok v => exact .done h
    | error f => exact .done h
  show ((Task.turn >>= fun _ => (do
    Task.updateStore fun s => s.setMemo cell ((s.memo cell).close o)
    Task.lift o) : Task Val) i (s.setMemo cell ((s.memo cell).finish o))).Stays _
  rw [Step.turn_bind]
  unfold Step.afterTurn
  split
  · exact .ready hnoted rfl hlift
  · exact hlift

theorem of_history (h : MemoHistory cell (os ++ os') s) : Known cell os s :=
  ⟨h.memo.1, fun _ => ⟨os', h⟩⟩

/-- A call that begins a run makes the history one run longer. -/
theorem refresh_of_idle (h : MemoHistory cell (os ++ os') s) :
    (refresh cell (execute (nested depth) w) i s).Stays (Known cell os) := by
  obtain ⟨hbound, hidle, -⟩ := h.memo
  rw [Wordstack.refresh_of_idle hidle]
  have hbegun := Store.hasMemo_beginMemo hbound
  have hcurrent : ({ s.memo cell with current := some (s.memo cell).outcomes.size } : Memo).current =
    some (s.memo cell).outcomes.size := rfl
  let K := CodeProperty.busy cell hcurrent
  have hbody : K.Holds (Task.attempt (do Task.call (execute (nested depth) w); Task.pop)) :=
    K.attempt (K.bind (K.call (stays_execute hcurrent)) fun _ => K.pop)
  have hstays := hbody i (s.beginMemo cell) hbegun
  refine Step.Stays.bind_finish (hstays.mono fun _ ht => of_current ht rfl) fun o j t hx => ?_
  obtain ⟨r, k, hrun, ho⟩ := Result.exists_of_finish_attempt hx
  obtain ⟨r', j', hend⟩ := MemoUse.refresh.exists_finish_conclude o j (t.conclude cell o)
  have hfresh : MemoUse.refresh.IsFresh (s.memo cell) := nofun
  have hcall : (execute (nested depth) (MemoUse.refresh.word { name := "" } cell w)).finish i s = _ :=
    (finish_memoUse_ran hfresh hidle hrun ho).trans hend
  have hran := h.ran (.call hfresh hrun ho hcall)
  rw [List.append_assoc] at hran
  exact conclude (hstays.of_finish hx) rfl (of_history hran)

theorem refresh (c : Nat) (hrun : (execute (nested depth) w).Stays (Known cell os)) :
    (Wordstack.refresh c (execute (nested depth) w)).Stays (Known cell os) := by
  by_cases hc : c = cell
  · subst hc
    intro i s hs
    cases hcurrent : (s.memo c).current with
    | some number =>
      rw [refresh_of_running hcurrent, s.setMemo_memo]
      exact (CodeProperty.plain (property c os)).join c number i s hs
    | none =>
      obtain ⟨os', h⟩ := hs.goesOn hcurrent
      exact refresh_of_idle h
  · exact hrun.refresh (property cell os) fun m' _ hs =>
      hs.of_hasMemo (Store.HasMemo.setMemo hc m' ⟨hs.bound, rfl⟩)

end MemoHistory.Known

/-- Code that is run after calls of a memo word makes calls of it, or none. -/
def MemoHistory.code (cell : Nat) (os : List (Except Fault Val)) : CodeProperty :=
  .staying (Known.property cell os) (fun e => ∃ depth, e = nested depth) fun c _ he hrun => by
    obtain ⟨depth, rfl⟩ := he
    exact Known.refresh c hrun

/-- Whatever a source does, the history goes on. -/
theorem MemoHistory.exists_of_runSource {source : String} {origin : Location}
    (h : MemoHistory cell os s)
    (hrun : (runSource (nested depth) source origin).finish i s = .ended r j t)
    (hidle : (t.memo cell).current = none) : ∃ os', MemoHistory cell (os ++ os') t := by
  let K := MemoHistory.code cell os
  have hmachine : ∀ depth, K.Machine (nested depth) := fun depth => ⟨depth, rfl⟩
  have hstays : K.Holds (runSource (nested depth) source origin) :=
    K.runSource (CodeProperty.holdsNested hmachine depth) source origin
  have hknown : Known cell os s := ⟨h.memo.1, fun _ => ⟨[], by rwa [List.append_nil]⟩⟩
  exact ((hstays i s hknown).of_finish hrun).goesOn hidle

end History

/-! ## Calls -/

/-- What calls of a memo word do where `value` is remembered. The three words differ in what they do
with a value (`MemoUse.leave`). -/
structure MemoCoherent (cell : Nat) (value : Option Val) (s : Store) : Prop where
  /-- `NAME` leaves the remembered value, and does nothing else. -/
  found : ∀ {depth : Nat} {label : WordLabel} {w : Word} {i : Interp} {v : Val}, value = some v →
    (execute (nested depth) (MemoUse.value.word label cell w)).finish i s =
      .ended (.ok ()) { i with stack := i.stack.push v } s
  /-- `NAME!`, `NAME!@` and a `NAME` that nothing is remembered for run the word behind. The value
  that it leaves on the stack is taken away and remembered. -/
  ran : ∀ {depth : Nat} {use : MemoUse} {label : WordLabel} {w : Word} {i k : Interp} {u : Store}
    {v : Val}, (use = .value → value = none) →
    (execute (nested depth) w).finish i (s.beginMemo cell) = .ended (.ok ()) k u →
    k.stack = i.stack.push v →
    (execute (nested depth) (use.word label cell w)).finish i s =
      .ended (.ok ()) (use.leave v { k with stack := i.stack }) (u.conclude cell (.ok v))
  /-- They fail as it does. -/
  failed : ∀ {depth : Nat} {use : MemoUse} {label : WordLabel} {w : Word} {i k : Interp}
    {u : Store} {f : Fault}, (use = .value → value = none) →
    (execute (nested depth) w).finish i (s.beginMemo cell) = .ended (.fault f) k u →
    (execute (nested depth) (use.word label cell w)).finish i s =
      .ended (.fault f) k (u.conclude cell (.error f))

section Calls

variable {cell : Nat} {os : List (Except Fault Val)} {s : Store}

theorem MemoHistory.coherent (h : MemoHistory cell os s) : MemoCoherent cell (Memo.latest os) s := by
  obtain ⟨-, hidle, hvalue⟩ := h.memo
  refine ⟨fun hv => finish_memoUse_cached (hvalue.trans hv), ?_, ?_⟩
  · intro depth use label w i k u v hfresh hbody hstack
    have ho : (Result.ok ()).outcome? k = some (.ok v, { k with stack := i.stack }) := by
      unfold Result.outcome?
      rw [hstack]
      rfl
    rw [finish_memoUse_ran (fun huse => hvalue.trans (hfresh huse)) hidle hbody ho]
    rfl
  · intro depth use label w i k u f hfresh hbody
    exact finish_memoUse_fault (fun huse => hvalue.trans (hfresh huse)) hidle hbody

/-- Calls of a memo word do what its history says, and whatever they and other code do is a longer
history. -/
theorem memo_words_are_coherent (h : MemoHistory cell os s) :
    MemoCoherent cell (Memo.latest os) s ∧
      (∀ o t, MemoRun cell s o t → MemoHistory cell (os ++ [o]) t ∧
        MemoCoherent cell (Memo.valueAfter (Memo.latest os) o) t) ∧
      ∀ depth source origin i r j t,
        (runSource (nested depth) source origin).finish i s = .ended r j t →
        (t.memo cell).current = none → ∃ os', MemoHistory cell (os ++ os') t := by
  refine ⟨h.coherent, fun o t hrun => ?_, fun _ _ _ _ _ _ _ => h.exists_of_runSource⟩
  have hran := h.ran hrun
  refine ⟨hran, ?_⟩
  rw [← Memo.latest_snoc]
  exact hran.coherent

end Calls

/-! ## A word that fails once its variable was cleared -/

/-- Leaves what the first variable cell holds, unless that is null. -/
def Word.readingCell : Word :=
  .direct { name := "READ" } false
    (.ask (.fetch 0) fun (v : Val) =>
      match v with
      | .null => .fail (.error "cleared")
      | v => .ask (.push v) fun _ => .done ()) []

/-- A variable cell, and a memo that nobody has called yet. -/
def Store.lent : Store := { cells := #[.str "old"], memos := #[{}] }

/-- The word was run for the memo, and the variable was cleared then. -/
def Store.cleared : Store :=
  ((Store.lent.beginMemo 0).conclude 0 (.ok (.str "old"))).put 0 .null

theorem memoRun_lent :
    MemoRun 0 .lent (.ok (.str "old")) ((Store.lent.beginMemo 0).conclude 0 (.ok (.str "old"))) := by
  have hbody : (execute (nested 0) .readingCell).finish .blank (Store.lent.beginMemo 0) =
      .ended (.ok ()) { Interp.blank with stack := Interp.blank.stack.push (.str "old") } _ := rfl
  have hcall : (execute (nested 0) (MemoUse.value.word { name := "NAME" } 0 .readingCell)).finish
      .blank .lent = .ended (.ok ()) _ _ := rfl
  exact .call (fun _ => rfl) hbody rfl hcall

theorem memoRun_cleared :
    ∃ f, MemoRun 0 .cleared (.error f) ((Store.cleared.beginMemo 0).conclude 0 (.error f)) := by
  have hbody : (execute (nested 0) .readingCell).finish .blank (Store.cleared.beginMemo 0) =
      .ended (.fault _) .blank _ := rfl
  have hcall : (execute (nested 0) (MemoUse.refresh.word { name := "NAME!" } 0 .readingCell)).finish
      .blank .cleared = .ended (.fault _) _ _ := rfl
  have hfresh : MemoUse.refresh.IsFresh (Store.cleared.memo 0) := nofun
  exact ⟨_, .call hfresh hbody rfl hcall⟩

/-- A run that has failed leaves the value of the one before. -/
theorem memo_words_are_coherent_cleared : ∃ (s : Store) (f : Fault),
    MemoHistory 0 [.ok (.str "old"), .error f] s ∧ s.fetch 0 = .null ∧
      ∀ (label : WordLabel) (i : Interp),
        (execute (nested 0) (MemoUse.value.word label 0 .readingCell)).finish i s =
          .ended (.ok ()) { i with stack := i.stack.push (.str "old") } s := by
  have hnew : MemoHistory 0 [] .lent := .new ⟨Nat.one_pos, rfl⟩
  have hcleared : MemoHistory 0 [.ok (.str "old")] .cleared :=
    (hnew.ran memoRun_lent).other ⟨Nat.one_pos, rfl⟩
  obtain ⟨f, hfails⟩ := memoRun_cleared
  obtain ⟨-, hruns, -⟩ := memo_words_are_coherent hcleared
  obtain ⟨hhistory, hcoherent⟩ := hruns _ _ hfails
  exact ⟨_, _, hhistory, rfl, fun label i => hcoherent.found rfl⟩

end Wordstack
