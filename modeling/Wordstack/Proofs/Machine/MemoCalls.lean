import Wordstack.Proofs.Machine.Words

/-!
# Calls of memo words

What a call of a memo word does from one pause to the next.

- **Uses** (`MemoUse`): a call wants the value, a fresh run, or the value of a fresh run.
- **Entries** (`MemoUse.entry`): how it comes to its value.
- **Turns** (`MemoUse.call`): what the call does when it is called and whenever it is resumed. The
  pauses of the body that it runs are pauses of the call.
- **Words** (`execute_word`): this is what executing the word is.
- **Memo words alone**: what a call comes to when nobody else runs beside it. A remembered value is
  left (`finish_memoUse_cached`), and a run ends as the word behind it does
  (`Outcome.concluded`, `finish_memoUse_begun`).
-/

namespace Wordstack

/-! ## Uses and entries -/

/-- What a caller wants of a memo word: its value, a fresh run, or the value of a fresh run. -/
inductive MemoUse where
  | value
  | refresh
  | reload
deriving DecidableEq

/-- How a call comes to its value: it was there, or it is that of a run that the call has begun, or
that of a run that was in progress. -/
inductive MemoEntry where
  | cached (v : Val)
  | begun (run : Nat)
  | joined (run : Nat)

namespace MemoUse

variable {use : MemoUse} {m : Memo} {run : Nat} {v : Val}

/-- The word that is called. -/
def word (use : MemoUse) (label : WordLabel) (cell : Nat) (w : Word) : Word :=
  match use with
  | value => .memo label cell w
  | refresh => .memoRefresh label cell w
  | reload => .memoReload label cell w

/-- Whether the caller wants a fresh value. -/
def IsFresh (use : MemoUse) (m : Memo) : Prop := use = .value → m.value = none

/-- How the call comes to its value. -/
def entry (use : MemoUse) (m : Memo) : MemoEntry :=
  match use, m.value with
  | value, some v => .cached v
  | _, _ =>
    match m.enter.1 with
    | .begin => .begun m.outcomes.size
    | .join run => .joined run

theorem entry_of_cached (h : m.value = some v) : value.entry m = .cached v := by
  unfold entry
  rw [h]

theorem entry_of_isFresh (h : use.IsFresh m) :
    use.entry m = match m.enter.1 with
      | .begin => .begun m.outcomes.size
      | .join run => .joined run := by
  unfold entry
  split
  · rename_i v hv
    rw [h rfl] at hv
    cases hv
  · rfl

theorem cached_or_isFresh (use : MemoUse) (m : Memo) :
    (∃ v, use = value ∧ m.value = some v) ∨ use.IsFresh m := by
  cases hv : m.value with
  | none => exact .inr fun _ => hv
  | some v =>
    cases use with
    | value => exact .inl ⟨v, rfl, rfl⟩
    | refresh => exact .inr nofun
    | reload => exact .inr nofun

/-- Where no run is current, whoever wants a fresh value begins one. -/
theorem entry_of_idle (h : use.IsFresh m) (hm : m.current = none) :
    use.entry m = .begun m.outcomes.size := by
  rw [entry_of_isFresh h, Memo.enter, hm]

/-- Where a run is current, whoever wants a fresh value joins it. -/
theorem entry_of_current (h : use.IsFresh m) (hm : m.current = some run) :
    use.entry m = .joined run := by
  rw [entry_of_isFresh h, Memo.enter, hm]

theorem of_entry_begun (h : use.entry m = .begun run) :
    use.IsFresh m ∧ m.current = none ∧ run = m.outcomes.size := by
  obtain ⟨v, rfl, hv⟩ | hfresh := cached_or_isFresh use m
  · rw [entry_of_cached hv] at h
    cases h
  · cases hm : m.current with
    | none =>
      rw [entry_of_idle hfresh hm] at h
      cases h
      exact ⟨hfresh, rfl, rfl⟩
    | some k =>
      rw [entry_of_current hfresh hm] at h
      cases h

theorem of_entry_joined (h : use.entry m = .joined run) : m.current = some run := by
  obtain ⟨v, rfl, hv⟩ | hfresh := cached_or_isFresh use m
  · rw [entry_of_cached hv] at h
    cases h
  · cases hm : m.current with
    | none =>
      rw [entry_of_idle hfresh hm] at h
      cases h
    | some k =>
      rw [entry_of_current hfresh hm] at h
      cases h
      rfl

theorem of_entry_cached (h : use.entry m = .cached v) : use = value ∧ m.value = some v := by
  obtain ⟨w, rfl, hw⟩ | hfresh := cached_or_isFresh use m
  · rw [entry_of_cached hw] at h
    cases h
    exact ⟨rfl, hw⟩
  · cases hm : m.current with
    | none =>
      rw [entry_of_idle hfresh hm] at h
      cases h
    | some k =>
      rw [entry_of_current hfresh hm] at h
      cases h

end MemoUse

/-! ## Turns -/

/-- Goes on once the others have had a turn, if there are any. -/
def Step.afterTurn {α : Type} (s : Store) (f : Store → Step α) : Step α :=
  if s.isShared then .pause { reason := .turn } s fun _ t => f t else f s

namespace Step

variable {α β : Type} {s : Store}

theorem bind_afterTurn (s : Store) (f : Store → Step α) (g : α → Task β) :
    (afterTurn s f).bind g = afterTurn s fun t => (f t).bind g := by
  unfold afterTurn
  split <;> rfl

theorem attempt_afterTurn (s : Store) (f : Store → Step α) :
    (afterTurn s f).attempt = afterTurn s fun t => (f t).attempt := by
  unfold afterTurn
  split <;> rfl

theorem later_afterTurn (s : Store) (f : Store → Step α) :
    (afterTurn s f).later = afterTurn s fun t => (f t).later := by
  unfold afterTurn
  split <;> rfl

theorem later_done (r : Result α) (i : Interp) (s : Store) :
    (done r i s).later = afterTurn s fun t => .done r i t := by
  unfold later afterTurn
  split <;> rfl

theorem turn_bind (f : Task α) (i : Interp) (s : Store) :
    (Task.turn >>= fun _ => f : Task α) i s = afterTurn s (f i) := by
  show ((done (.ok ()) i s : Step Unit).later).bind _ = _
  rw [later_done, bind_afterTurn]
  rfl

end Step

/-- What a run of the body comes to once the body has ended: the value that it has left on top of
the stack, or a fault; and the interpreter then. -/
def Result.outcome? (r : Result Unit) (i : Interp) : Option (Except Fault Val × Interp) :=
  match r with
  | .ok _ =>
    match i.stack.pop? with
    | some (v, stack) => some (.ok v, { i with stack })
    | none => some (.error i.underflow, i)
  | .fault f => some (.error f, i)
  | .exhausted => none

namespace MemoUse

/-- What a caller does with the value. -/
def leave (use : MemoUse) (v : Val) (i : Interp) : Interp :=
  match use with
  | refresh => i
  | value | reload => { i with stack := i.stack.push v }

/-- The end of a call. -/
def conclude (use : MemoUse) (o : Except Fault Val) (i : Interp) (s : Store) : Step Unit :=
  match o with
  | .ok v => .done (.ok ()) (use.leave v i) s
  | .error f => .done (.fault f) i s

/-- The call has an outcome. -/
def hand (use : MemoUse) (o : Except Fault Val) (i : Interp) (s : Store) : Step Unit :=
  .afterTurn s (use.conclude o i)

/-- The call has none: the body was nested too deeply. -/
def giveUp (i : Interp) (s : Store) : Step Unit := .afterTurn s fun t => .done .exhausted i t

/-- The run of the call has ended. It stays current for a turn. -/
def note (use : MemoUse) (cell : Nat) (o : Except Fault Val) (i : Interp) (s : Store) : Step Unit :=
  .afterTurn (s.setMemo cell ((s.memo cell).finish o)) fun t =>
    use.hand o i (t.setMemo cell ((t.memo cell).close o))

/-- The body has ended, and the others have had a turn. -/
def gather (use : MemoUse) (cell : Nat) (r : Result Unit) (i : Interp) (s : Store) : Step Unit :=
  match r.outcome? i with
  | some (o, j) => use.note cell o j s
  | none => giveUp i s

/-- The call runs the body. -/
def follow (use : MemoUse) (cell : Nat) : Step Unit → Step Unit
  | .done r i s => .afterTurn s (use.gather cell r i)
  | .pause w s resume => .pause w s fun wake t => use.follow cell (resume wake t)

/-- The run that the call has joined has ended. -/
def fetch (use : MemoUse) (cell run : Nat) (i : Interp) (s : Store) : Step Unit :=
  match (s.memo cell).outcome? run with
  | some o => use.hand o i s
  | none => giveUp i s

/-- The call has joined a run, and the others have had a turn. -/
def await (use : MemoUse) (cell run : Nat) (i : Interp) (s : Store) : Step Unit :=
  if ((s.memo cell).outcome? run).isSome then .afterTurn s (use.fetch cell run i)
  else .pause { reason := .memoRun cell run } s fun _ t => use.fetch cell run i t

/-- A call of a memo word. -/
def call (use : MemoUse) (cell : Nat) (body : Task Unit) (i : Interp) (s : Store) : Step Unit :=
  match use.entry (s.memo cell) with
  | .cached v => use.conclude (.ok v) i s
  | .begun _ => use.follow cell (body i (s.setMemo cell (s.memo cell).enter.2))
  | .joined run => .afterTurn s (use.await cell run i)

end MemoUse

/-! ## Words -/

/-- What a call that has begun a run does with the outcome. -/
def takeOver (cell : Nat) (o : Except Fault Val) : Task Val := do
  Task.updateStore fun s => s.setMemo cell ((s.memo cell).finish o)
  Task.turn
  Task.updateStore fun s => s.setMemo cell ((s.memo cell).close o)
  Task.lift o

/-- What a call that has joined a run does once there is an outcome. -/
def takeOutcome (cell run : Nat) : Task Val := do
  let outcome ← Task.view fun _ s => (s.memo cell).outcome? run
  match outcome with
  | some o => Task.lift o
  | none => Task.exhausted

/-- What a call that joins a run does. -/
def awaitRun (cell run : Nat) : Task Val := do
  Task.turn
  if (← Task.view fun _ s => (s.memo cell).outcome? run).isSome then Task.turn
  else
    let _ ← Task.wait (.memoRun cell run)
  takeOutcome cell run

namespace MemoUse

variable {use : MemoUse} {cell run : Nat} {i : Interp} {s : Store}

/-- What a caller does with a fresh value, as a task. -/
def leaves (use : MemoUse) (v : Val) : Task Unit := Task.update (use.leave v)

theorem later_lift (o : Except Fault Val) :
    ((Task.lift o i s).later).bind use.leaves = use.hand o i s := by
  cases o with
  | ok v =>
    show ((Step.done (.ok v) i s).later).bind _ = _
    rw [Step.later_done, Step.bind_afterTurn]
    rfl
  | error f =>
    show ((Step.done (.fault f) i s : Step Val).later).bind _ = _
    rw [Step.later_done, Step.bind_afterTurn]
    rfl

theorem later_exhausted :
    ((Step.done .exhausted i s : Step Val).later).bind use.leaves = giveUp i s := by
  rw [Step.later_done, Step.bind_afterTurn]
  rfl

theorem later_takeOver (o : Except Fault Val) :
    ((takeOver cell o i s).later).bind use.leaves = use.note cell o i s := by
  show (((Task.turn >>= fun _ => (do
    Task.updateStore fun s => s.setMemo cell ((s.memo cell).close o)
    Task.lift o) : Task Val) i _).later).bind _ = _
  rw [Step.turn_bind, Step.later_afterTurn, Step.bind_afterTurn]
  exact congrArg _ (funext fun t => later_lift o)

theorem later_gather (r : Result Unit) :
    (((((Step.done r i s).bind fun _ => Task.pop).attempt).bind (takeOver cell)).later).bind
      use.leaves = use.gather cell r i s := by
  cases r with
  | ok =>
    show ((((Task.pop i s).attempt).bind (takeOver cell)).later).bind use.leaves = _
    unfold gather Result.outcome? Task.pop
    dsimp only
    cases i.stack.pop? with
    | some p => exact later_takeOver _
    | none => exact later_takeOver _
  | fault f => exact later_takeOver _
  | exhausted => exact later_exhausted

theorem later_follow (x : Step Unit) :
    ((((x.later.bind fun _ => Task.pop).attempt).bind (takeOver cell)).later).bind use.leaves =
      use.follow cell x := by
  induction x with
  | done r i s =>
    rw [follow, Step.later_done, Step.bind_afterTurn, Step.attempt_afterTurn, Step.bind_afterTurn,
      Step.later_afterTurn, Step.bind_afterTurn]
    exact congrArg _ (funext fun t => later_gather r)
  | pause w s resume ih =>
    rw [follow]
    exact congrArg _ (funext fun wake => funext fun t => ih wake t)

theorem later_fetch (s : Store) :
    ((takeOutcome cell run i s).later).bind use.leaves = use.fetch cell run i s := by
  unfold fetch
  show (((match (s.memo cell).outcome? run with
    | some o => Task.lift o
    | none => Task.exhausted : Task Val) i s).later).bind _ = _
  cases (s.memo cell).outcome? run with
  | some o => exact later_lift o
  | none => exact later_exhausted

theorem later_awaitRun :
    ((awaitRun cell run i s).later).bind use.leaves = .afterTurn s (use.await cell run i) := by
  show (((Task.turn >>= fun _ => (do
    if (← Task.view fun _ s => (s.memo cell).outcome? run).isSome then Task.turn
    else
      let _ ← Task.wait (.memoRun cell run)
    takeOutcome cell run) : Task Val) i s).later).bind _ = _
  rw [Step.turn_bind, Step.later_afterTurn, Step.bind_afterTurn]
  refine congrArg _ (funext fun t => ?_)
  show (Step.later ((if ((t.memo cell).outcome? run).isSome then
      (Task.turn >>= fun _ => takeOutcome cell run)
    else (Task.wait (.memoRun cell run) >>= fun _ => takeOutcome cell run) : Task Val) i t)).bind _ = _
  unfold await
  split
  · rw [Step.turn_bind, Step.later_afterTurn, Step.bind_afterTurn]
    exact congrArg _ (funext fun u => later_fetch u)
  · show Step.pause _ t _ = Step.pause _ t _
    exact congrArg _ (funext fun _ => funext fun u => later_fetch u)

end MemoUse

section Refresh

variable {cell : Nat} {body : Task Unit} {i : Interp} {s : Store}

theorem refresh_begin (h : (s.memo cell).enter.1 = .begin) :
    refresh cell body i s =
      ((((body i (s.setMemo cell (s.memo cell).enter.2)).later.bind fun _ => Task.pop).attempt).bind
        (takeOver cell)) := by
  show (match (s.memo cell).enter.1 with
    | .begin => (Task.attempt (do Task.call body; Task.pop)) >>= takeOver cell
    | .join number => _ : Task Val) i (s.setMemo cell (s.memo cell).enter.2) = _
  rw [h]
  rfl

theorem refresh_join {run : Nat} (h : (s.memo cell).enter.1 = .join run) :
    refresh cell body i s = awaitRun cell run i (s.setMemo cell (s.memo cell).enter.2) := by
  show (match (s.memo cell).enter.1 with
    | .begin => _
    | .join number => awaitRun cell number : Task Val) i (s.setMemo cell (s.memo cell).enter.2) = _
  rw [h]

theorem Store.setMemo_memo (s : Store) (cell : Nat) : s.setMemo cell (s.memo cell) = s := by
  have h : s.memos.setIfInBounds cell (s.memo cell) = s.memos := by
    refine Array.ext (by simp) fun k hk hk' => ?_
    rw [Array.getElem_setIfInBounds]
    split
    · rename_i h
      subst h
      simp [memo, hk']
    · rfl
  unfold setMemo
  rw [h]

/-- A call that wants a fresh value. -/
theorem later_refresh {use : MemoUse} (h : use.IsFresh (s.memo cell)) :
    ((refresh cell body i s).later).bind use.leaves = use.call cell body i s := by
  unfold MemoUse.call
  cases hm : (s.memo cell).current with
  | none =>
    have henter : (s.memo cell).enter.1 = .begin := by rw [Memo.enter, hm]
    rw [refresh_begin henter, MemoUse.later_follow, MemoUse.entry_of_idle h hm]
  | some run =>
    have henter : (s.memo cell).enter = (.join run, s.memo cell) := by rw [Memo.enter, hm]
    rw [refresh_join (congrArg Prod.fst henter), congrArg Prod.snd henter, s.setMemo_memo,
      MemoUse.later_awaitRun, MemoUse.entry_of_current h hm]

end Refresh

/-- What executing a memo word or one of its companions does from one pause to the next. -/
theorem execute_word (e : Nested) (use : MemoUse) (label : WordLabel) (cell : Nat) (w : Word)
    (i : Interp) (s : Store) :
    execute e (use.word label cell w) i s = use.call cell (execute e w) i s := by
  obtain ⟨v, rfl, hv⟩ | hfresh := use.cached_or_isFresh (s.memo cell)
  · unfold MemoUse.word MemoUse.call
    rw [execute, MemoUse.entry_of_cached hv]
    show Step.bind (.done (.ok (s.memo cell).value) i s) _ = _
    rw [Step.bind, hv]
    rfl
  · rw [← later_refresh hfresh]
    cases use with
    | value =>
      rw [MemoUse.word, execute]
      show Step.bind (.done (.ok (s.memo cell).value) i s) _ = _
      rw [Step.bind, hfresh rfl]
      rfl
    | refresh =>
      rw [MemoUse.word, execute]
      rfl
    | reload =>
      rw [MemoUse.word, execute]
      rfl

/-! ## Memo words alone -/

theorem Step.finish_afterTurn {α : Type} (s : Store) (f : Store → Step α) :
    (Step.afterTurn s f).finish = (f s).finish := by
  unfold Step.afterTurn
  split
  · rfl
  · rfl

/-- The end of a call that has run the word behind a memo word. -/
def Outcome.concluded (use : MemoUse) (cell : Nat) : Outcome Unit → Outcome Unit
  | ended r i s =>
    match r.outcome? i with
    | some (o, j) => (use.conclude o j (s.conclude cell o)).finish
    | none => .ended .exhausted i s
  | hung s => .hung s

section

variable {e : Nested} {use : MemoUse} {label : WordLabel} {cell : Nat} {w : Word} {i j : Interp}
  {s t : Store} {f : Fault}

theorem MemoUse.finish_note (o : Except Fault Val) (i : Interp) (s : Store) :
    (use.note cell o i s).finish = (use.conclude o i (s.conclude cell o)).finish := by
  unfold note hand
  rw [Step.finish_afterTurn, Step.finish_afterTurn]
  rfl

theorem MemoUse.finish_gather (r : Result Unit) (i : Interp) (s : Store) :
    (use.gather cell r i s).finish = (Outcome.ended r i s).concluded use cell := by
  unfold gather Outcome.concluded
  cases hr : r.outcome? i with
  | some p =>
    simp only [hr]
    exact finish_note p.1 p.2 s
  | none =>
    simp only [hr]
    exact Step.finish_afterTurn s _

theorem MemoUse.finish_follow (x : Step Unit) :
    (use.follow cell x).finish = x.finish.concluded use cell := by
  induction x with
  | done r i s =>
    unfold follow
    rw [Step.finish_afterTurn]
    exact finish_gather r i s
  | pause w s resume ih =>
    unfold follow Step.finish
    split
    · exact ih _ _
    · split
      · exact ih _ _
      · rfl

/-- A remembered value is left, and the word behind is not run. -/
theorem finish_memoUse_cached {v : Val} (hv : (s.memo cell).value = some v) :
    (execute e (MemoUse.value.word label cell w)).finish i s =
      .ended (.ok ()) { i with stack := i.stack.push v } s := by
  unfold Task.finish
  rw [execute_word, MemoUse.call, MemoUse.entry_of_cached hv]
  rfl

/-- A call that wants a fresh value where no run is current runs the word behind. -/
theorem finish_memoUse_begun (hfresh : use.IsFresh (s.memo cell))
    (hidle : (s.memo cell).current = none) :
    (execute e (use.word label cell w)).finish i s =
      ((execute e w).finish i (s.beginMemo cell)).concluded use cell := by
  have hbegin : s.setMemo cell (s.memo cell).enter.2 = s.beginMemo cell := by
    unfold Memo.enter Store.beginMemo
    rw [hidle]
  unfold Task.finish
  rw [execute_word, MemoUse.call, MemoUse.entry_of_idle hfresh hidle]
  simp only
  rw [MemoUse.finish_follow, hbegin]

/-- A memo word that runs the word behind it fails as that one does. -/
theorem finish_memoUse_fault (hfresh : use.IsFresh (s.memo cell))
    (hidle : (s.memo cell).current = none)
    (h : (execute e w).finish i (s.beginMemo cell) = .ended (.fault f) j t) :
    (execute e (use.word label cell w)).finish i s =
      .ended (.fault f) j (t.conclude cell (.error f)) := by
  rw [finish_memoUse_begun hfresh hidle, h]
  rfl

end

end Wordstack
