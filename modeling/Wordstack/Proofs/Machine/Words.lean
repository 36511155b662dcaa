import Wordstack.Proofs.Machine.Answers

/-!
# Words in lockstep

- **Failures** (`Task.Alike.recover`): faults that are alike are handled alike.
- **Memo words** (`Task.Alike.refresh`): an outcome is remembered and taken over in one go when
  nobody runs beside, so callers never see outcomes that differ in places.
- **Brackets** and **words** (`Task.Alike.execute`, `Task.Alike.dispatch`): by induction on the
  word, one case a constructor.
-/

namespace Wordstack

/-! ## Runs of memo words -/

/-- The store once a run of a memo's word has begun. -/
def Store.beginMemo (s : Store) (cell : Nat) : Store :=
  s.setMemo cell { s.memo cell with current := some (s.memo cell).outcomes.size }

/-- The store once the outcome of a run was remembered and taken over. -/
def Store.conclude (s : Store) (cell : Nat) (outcome : Except Fault Val) : Store :=
  let s := s.setMemo cell ((s.memo cell).finish outcome)
  s.setMemo cell ((s.memo cell).close outcome)

namespace Task

/-- The end of a run of a memo's word. -/
def conclude (cell : Nat) (outcome : Except Fault Val) : Task Val := do
  Task.updateStore fun s => s.setMemo cell ((s.memo cell).finish outcome)
  Task.turn
  Task.updateStore fun s => s.setMemo cell ((s.memo cell).close outcome)
  Task.lift outcome

/-- The outcome of the run in progress. -/
def join (cell number : Nat) : Task Val := do
  Task.turn
  if (← Task.view fun _ s => (s.memo cell).outcome? number).isSome then Task.turn
  else
    let _ ← Task.wait (.memoRun cell number)
  let outcome ← Task.view fun _ s => (s.memo cell).outcome? number
  match outcome with
  | some o => Task.lift o
  | none => Task.exhausted

end Task

section Refresh

variable {cell : Nat} {run : Task Unit} {i : Interp} {s : Store}

theorem refresh_of_idle (h : (s.memo cell).current = none) :
    refresh cell run i s =
      (do
        let outcome ← Task.attempt (do Task.call run; Task.pop)
        Task.conclude cell outcome : Task Val) i
        (s.setMemo cell { s.memo cell with current := some (s.memo cell).outcomes.size }) := by
  have he : (s.memo cell).enter =
      (.begin, { s.memo cell with current := some (s.memo cell).outcomes.size }) := by
    unfold Memo.enter; rw [h]
  rw [refresh, Task.bind_apply, Task.ofStore, he]
  rfl

theorem refresh_of_running {number : Nat} (h : (s.memo cell).current = some number) :
    refresh cell run i s = Task.join cell number i (s.setMemo cell (s.memo cell)) := by
  have he : (s.memo cell).enter = (.join number, s.memo cell) := by
    unfold Memo.enter; rw [h]
  rw [refresh, Task.bind_apply, Task.ofStore, he]
  rfl

end Refresh

/-- Leaves a result if there is one. -/
def Task.pushSome : Option Val → Task Unit
  | some v => push v
  | none => pure ()

namespace Task.Alike

variable {L : Likeness} {e e' : Nested}

/-! ## Failures -/

theorem tryHandlers (hL : L.Sound) (he : Nested.Alike L e e') (name : String) {f g : Fault}
    (hf : L.fault f g) {handlers : List Handler}
    (hh : ∀ h ∈ handlers, Handler.Alike L.loose h h) :
    Alike L L (· = ·) (tryHandlers e name f handlers) (tryHandlers e' name g handlers) := by
  induction handlers with
  | nil => exact pure rfl
  | cons h rest ih =>
    unfold Wordstack.tryHandlers
    have hcode := hh h (by simp) f g (hL.blurs ▸ hf)
    refine ((perform hL he hcode).callCode false).attempt.bind fun a b hab => ?_
    cases hab with
    | ok => exact pure rfl
    | error hf' =>
      simp only
      rw [hf'.message_eq]
      exact (log _ _ _).bind fun _ _ _ => ih fun h hmem => hh h (by simp [hmem])

theorem recover (hL : L.Sound) (he : Nested.Alike L e e') {label label' : WordLabel}
    (hlabel : label.blur L.relocates = label'.blur L.relocates) {f g : Fault} (hf : L.fault f g)
    {handlers : List Handler} (hh : ∀ h ∈ handlers, Handler.Alike L.loose h h) :
    Alike L L (· = ·) (recover e label handlers f) (recover e' label' handlers g) := by
  have hname : label.name = label'.name := WordLabel.name_eq_of_blur hlabel
  have hhome : label.home = label'.home := WordLabel.home_eq_of_blur hlabel
  unfold Wordstack.recover
  rw [← hname, ← hhome]
  rw [hf.isStop_eq]
  split
  · exact throw hf
  refine (tryHandlers hL he _ hf hh).call.bind ?_
  rintro handled _ rfl
  split
  · exact pure rfl
  rw [hf.isEngine_eq]
  split
  · exact throw hf
  refine (place hL Interp.call).bind fun l l' hl => throw ?_
  exact hL.wrap hf (fun hloose => by simpa [hloose] using hl)
    (fun f l => .nativeWord label.name (label.home.getD "") f.message (some f) l)
    fun h => by simp [Fault.blur, h, Fault.message_eq_of_blur h]

theorem guarded (hL : L.Sound) (he : Nested.Alike L e e') {label label' : WordLabel}
    (hlabel : label.blur L.relocates = label'.blur L.relocates) {handlers : List Handler}
    (hh : ∀ h ∈ handlers, Handler.Alike L.loose h h) {x y : Task Unit}
    (h : Alike L L (· = ·) x y) :
    Alike L L (· = ·) (guarded e label handlers x) (guarded e' label' handlers y) := by
  unfold Wordstack.guarded
  refine h.attempt.bind fun a b hab => ?_
  cases hab with
  | ok => exact pure rfl
  | error hf => exact (recover hL he hlabel hf hh).call

theorem callNative (hL : L.Sound) (he : Nested.Alike L e e') (inputs : Nat)
    (hasOptions waits : Bool) {code : List Val → Options → Native (Option Val)}
    (hcode : ∀ args options, Native.Alike L.loose (code args options) (code args options)) :
    Alike L L (· = ·) (callNative e inputs hasOptions waits code)
      (callNative e' inputs hasOptions waits code) := by
  have hrest : ∀ options : Options, Alike L L (· = ·)
      (do
        let args ← Task.popN inputs
        let result ← Task.callCode waits (Wordstack.perform e (code args options))
        Task.pushSome result)
      (do
        let args ← Task.popN inputs
        let result ← Task.callCode waits (Wordstack.perform e' (code args options))
        Task.pushSome result) := by
    intro options
    refine (popN hL inputs).bind ?_
    rintro args _ rfl
    refine ((perform hL he (hcode args options)).callCode waits).bind ?_
    rintro result _ rfl
    cases result with
    | some v => exact push hL v
    | none => exact pure rfl
  unfold Wordstack.callNative
  cases hasOptions with
  | true =>
    refine (takeOptions hL).bind ?_
    rintro options _ rfl
    exact hrest options
  | false => exact hrest .empty

/-! ## Memo words -/

/-- A turn is over at once for those who are alone. -/
theorem turn_bind {α β : Type} {R : α → β → Prop} {L' : Likeness} {k : Unit → Task α}
    {l : Unit → Task β} {i j : Interp} {s t : Store}
    (h : Step.Alike L' R (k () i s) (l () j t)) :
    Step.Alike L' R ((Task.turn >>= k) i s) ((Task.turn >>= l) j t) := by
  have hleft : Step.Alike L' R ((Task.turn >>= k) i s) (l () j t) := by
    show Step.Alike L' R (((Step.done (.ok ()) i s).later).bind k) _
    unfold Step.later
    split
    · exact .left rfl h
    · exact h
  show Step.Alike L' R _ (((Step.done (.ok ()) j t).later).bind l)
  unfold Step.later
  split
  · exact .right rfl hleft
  · exact hleft

/-- The value is remembered, and callers cannot join the run anymore. -/
theorem close {a b : Except Fault Val} (hab : L.Results (· = ·) a b) {m n : Memo}
    (hv : m.value = n.value) (hs : m.outcomes.size = n.outcomes.size) :
    (m.close a).Alike (n.close b) := by
  refine ⟨?_, rfl, hs, fun run h => by simp [Memo.close] at h⟩
  cases hab with
  | ok h => exact congrArg some h
  | error => exact hv

/-- Once an outcome has been taken over nobody can tell in which places it differed. -/
theorem conclude_stores {a b : Except Fault Val} (hab : L.Results (· = ·) a b) (cell : Nat)
    {s t : Store} (hs : L.Stores s t) : L.Stores (s.conclude cell a) (t.conclude cell b) := by
  have hm := hs.memo cell
  have hc : ∀ (s : Store) (o : Except Fault Val), s.conclude cell o =
      s.setMemo cell (((s.setMemo cell ((s.memo cell).finish o)).memo cell).close o) := by
    intro s o
    simp [Store.conclude, Store.setMemo]
  rw [hc, hc]
  refine hs.setMemo cell ?_
  rw [Store.memo_setMemo, Store.memo_setMemo, hs.size]
  split
  · exact close hab hm.value (by simp [Memo.finish, hm.size])
  · exact close hab hm.value hm.size

theorem conclude {a b : Except Fault Val} (hab : L.Results (· = ·) a b) (cell : Nat) :
    Alike L L (· = ·) (Task.conclude cell a) (Task.conclude cell b) := by
  refine ⟨fun {i j s t} hi hs => ?_⟩
  refine turn_bind (s := s.setMemo cell ((s.memo cell).finish a))
    (t := t.setMemo cell ((t.memo cell).finish b)) ?_
  exact (lift hab).steps hi (conclude_stores hab cell hs)

/-- The run in progress ends for those who join it as they find it remembered. If it has not ended
yet, nobody is there to end it. -/
theorem join (cell number : Nat) {i j : Interp} {s t : Store} (hi : L.Interps i j)
    (hs : L.Stores s t) (hlive : (s.memo cell).outcome? number = (t.memo cell).outcome? number) :
    Step.Alike L (· = ·) (Task.join cell number i s) (Task.join cell number j t) := by
  refine turn_bind ?_
  cases ho : (s.memo cell).outcome? number with
  | some o =>
    have ho' : (t.memo cell).outcome? number = some o := hlive ▸ ho
    simp only [Task.bind_apply, Task.view, Step.bind, ho, ho', Option.isSome_some, if_true]
    refine turn_bind ?_
    simp only [Task.bind_apply, Task.view, Step.bind, ho, ho']
    exact (lift_same o).steps hi hs
  | none =>
    have ho' : (t.memo cell).outcome? number = none := hlive ▸ ho
    simp only [Task.bind_apply, Task.view, Step.bind, ho, ho', Option.isSome_none]
    refine .stuck rfl (by simp [Wait.isReady, ho]) (by simp [Wait.isReady, ho']) hs ?_
    simp only [Task.bind_apply, Task.view, Step.bind, ho]
    exact .exhausted

/-- A run of a memo's word is one of its own, or the one in progress, on both sides. -/
theorem refresh (hL : L.Sound) {x y : Task Unit} (h : Alike L L (· = ·) x y) (cell : Nat) :
    Alike L L (· = ·) (refresh cell x) (refresh cell y) := by
  refine ⟨fun {i j s t} hi hs => ?_⟩
  have hm := hs.memo cell
  cases hc : (s.memo cell).current with
  | none =>
    rw [refresh_of_idle hc, refresh_of_idle (hm.current ▸ hc)]
    refine ((h.call.bind fun _ _ _ => pop hL).attempt.bind fun a b hab =>
      conclude hab cell).steps hi (hs.setMemo cell ?_)
    refine ⟨hm.value, by rw [hm.size], hm.size, fun run hrun => ?_⟩
    obtain rfl : (s.memo cell).outcomes.size = run := by simpa using hrun
    simp [Memo.outcome?, hm.size]
  | some number =>
    rw [refresh_of_running hc, refresh_of_running (hm.current ▸ hc)]
    refine join cell number hi (hs.setMemo cell hm) ?_
    simpa [Store.memo_setMemo] using hm.live number hc

/-! ## Brackets -/

theorem closeArray (hL : L.Sound) : Alike L L (· = ·) closeArray closeArray := by
  unfold Wordstack.closeArray
  refine interp_bind fun {i j s t} hi hs => ?_
  rw [hi.view Interp.marks fun _ _ => rfl, hi.view Interp.stack fun _ _ => rfl]
  cases i.marks with
  | nil =>
    exact .fault (hi.fault hL (fun i => .unmatchedBracket i.topInput "]" i.call)
      fun _ _ => rfl) hi hs
  | cons mark marks =>
    refine (bind (change hL (fun i => { i with marks }) (fun _ _ => rfl) (fun _ => .marks marks)
      fun _ => rfl) fun _ _ _ => ?_).steps hi hs
    split
    · exact throw (hi.fault hL Interp.underflow fun _ _ => rfl)
    · exact change hL (fun i => { i with stack := OperandStack.push _ _ }) (fun _ _ => rfl)
        (fun _ => .stack _) fun _ => rfl

/-- A module comes into scope. -/
theorem enter (hL : L.Sound) (m : Nat) :
    Alike L L (· = ·) (Task.update fun i => { i with scope := m :: i.scope })
      (Task.update fun i => { i with scope := m :: i.scope }) :=
  change hL (fun i => { i with scope := m :: i.scope }) (fun _ _ => rfl) (fun _ => .enter m)
    fun _ => rfl

theorem openModule (hL : L.Sound) (name : String) :
    Alike L L (· = ·) (openModule name) (openModule name) := by
  unfold Wordstack.openModule
  split
  · exact change hL (fun i => { i with scope := i.app :: i.scope }) (fun _ _ => rfl)
      (fun i => .enter i.app) fun _ => rfl
  refine (current _).bind ?_
  rintro parent _ rfl
  refine (viewing (R := fun x y => x.children = y.children) fun _ hs => ?_).bind ?_
  · exact (hs.viewModule parent Module.children fun _ => rfl).symm
  rintro x y hxy
  rw [← hxy]
  split
  · exact enter hL _
  refine (ofStore fun {s t} hs => ?_ : Alike L L (· = ·) _ _).bind ?_
  · have hadd := hs.addModule (x := { name }) rfl
    refine ⟨hadd.1, ?_⟩
    simp only [hadd.1]
    exact hadd.2.updateModule parent (fun _ => rfl) fun _ _ hm => hm
  rintro child _ rfl
  refine ⟨fun hi hs => .ok rfl (hi.update (fun i => { i with
    registered := if parent = i.app then Json.setField i.registered name child else i.registered
    scope := child :: i.scope }) (fun _ _ => rfl) (fun hf => ⟨hf.inputs, hf.pending, ?_,
      hf.body⟩) rfl rfl rfl) hs⟩
  exact hL.holds.change (hL.holds.change hf.holds (.enter child)) (.registered _)

theorem closeModule (hL : L.Sound) : Alike L L (· = ·) closeModule closeModule := by
  unfold Wordstack.closeModule
  refine interp_bind fun {i j s t} hi hs => ?_
  rw [hi.view Interp.scope fun _ _ => rfl]
  split
  · exact .fault (hi.fault hL (fun i => .unmatchedBracket i.topInput "\x7d" i.call)
      fun _ _ => rfl) hi hs
  · rename_i hlt
    have := hL.floor
    exact .ok rfl (hi.change hL (fun i => { i with scope := i.scope.tail }) (fun _ _ => rfl)
      (.leave (by omega)) rfl) hs

/-! ## Words -/

/-- A word is dispatched, on either side where it stands there. -/
theorem noteDispatch (hL : L.Sound) {v w : Word} (h : v.blur L.relocates = w.blur L.relocates)
    {l l' : Option Location} (hl : L.loose = false → l = l') :
    Alike L L (· = ·) (noteDispatch v l) (noteDispatch w l') := by
  have hprofiled : w.isProfiled = v.isProfiled := by rw [← w.isProfiled_blur, ← h, v.isProfiled_blur]
  have hname : w.qualifiedName = v.qualifiedName := by
    rw [← w.qualifiedName_blur, ← h, v.qualifiedName_blur]
  refine ⟨fun {i j s t} hi hs => .ok rfl ⟨?_, hi.inputs, ?_, fun hloose => ?_, hi.definition⟩ hs⟩
  · rw [hi.rest, hprofiled, hname]
    rfl
  · exact ⟨hi.fits.inputs, hi.fits.pending,
      hL.holds.change (hL.holds.change hi.fits.holds (.place l i.previous)) (.profile _),
      hi.fits.body⟩
  · exact ⟨(hl hloose).symm, (hi.tight hloose).2⟩

mutual
/-- Words that differ in places at most end alike. -/
theorem execute (hL : L.Sound) (he : Nested.Alike L e e') :
    ∀ v w : Word, v.blur L.relocates = w.blur L.relocates → (L.loose = true → v.Blind) →
      Alike L L (· = ·) (execute e v) (execute e' w)
  | .constant _ x, w, h, _ => by
    cases Word.alike_of_blur h with
    | constant => unfold Wordstack.execute; exact push hL x
  | .definition label body, w, h, hb => by
    cases Word.alike_of_blur h with
    | @definition _ label' _ body' hl hbody =>
      have hname : label.name = label'.name := WordLabel.name_eq_of_blur hl
      unfold Wordstack.execute
      rw [← hname]
      refine (place hL Interp.call).bind fun l l' hl => ?_
      exact executeBody hL he label.name (fun hloose => by simpa [hloose] using hl) body body'
        hbody hb
  | .native label inputs hasOptions waits code handlers, w, h, hb => by
    cases Word.alike_of_blur h with
    | native _ _ _ _ _ hl =>
      unfold Wordstack.execute
      exact guarded hL he hl (fun h hmem => .self fun hloose => (hb hloose).2 h hmem)
        (callNative hL he inputs hasOptions waits fun args options =>
          .self fun hloose => (hb hloose).1 args options)
  | .direct label waits code handlers, w, h, hb => by
    cases Word.alike_of_blur h with
    | direct _ _ _ hl =>
      unfold Wordstack.execute
      exact guarded hL he hl (fun h hmem => .self fun hloose => (hb hloose).2 h hmem)
        ((perform hL he (.self fun hloose => (hb hloose).1)).callCode waits)
  | .memo _ cell v, w, h, hb => by
    cases Word.alike_of_blur h with
    | @memo _ _ _ _ w _ hw =>
      unfold Wordstack.execute
      refine (viewing (R := (· = ·)) fun {i j s t} _ hs => (hs.memo cell).value).bind ?_
      rintro value _ rfl
      cases value with
      | some x => exact push hL x
      | none =>
        refine (refresh hL (execute hL he v w hw hb) cell).call.bind ?_
        rintro x _ rfl
        exact push hL x
  | .memoRefresh _ cell v, w, h, hb => by
    cases Word.alike_of_blur h with
    | @memoRefresh _ _ _ _ w _ hw =>
      unfold Wordstack.execute
      exact (refresh hL (execute hL he v w hw hb) cell).call.bind fun _ _ _ => pure rfl
  | .memoReload _ cell v, w, h, hb => by
    cases Word.alike_of_blur h with
    | @memoReload _ _ _ _ w _ hw =>
      unfold Wordstack.execute
      refine (refresh hL (execute hL he v w hw hb) cell).call.bind ?_
      rintro x _ rfl
      exact push hL x
  | .openArray, w, h, _ => by
    cases Word.alike_of_blur h with
    | openArray =>
      unfold Wordstack.execute
      exact change hL (fun i => { i with marks := i.stack.depth :: i.marks }) (fun _ _ => rfl)
        (fun _ => .marks _) fun _ => rfl
  | .closeArray, w, h, _ => by
    cases Word.alike_of_blur h with
    | closeArray => unfold Wordstack.execute; exact closeArray hL
  | .openModule name, w, h, _ => by
    cases Word.alike_of_blur h with
    | openModule => unfold Wordstack.execute; exact openModule hL name
  | .closeModule, w, h, _ => by
    cases Word.alike_of_blur h with
    | closeModule => unfold Wordstack.execute; exact closeModule hL
  | .remote label client _ _, w, h, _ => by
    cases Word.alike_of_blur h with
    | @remote _ label' _ _ _ hl =>
      have hname : label.name = label'.name := WordLabel.name_eq_of_blur hl
      unfold Wordstack.execute
      refine guarded hL he hl (fun _ h => absurd h List.not_mem_nil) (stack.bind ?_)
      rintro vs _ rfl
      rw [← hname]
      refine (executeRemote he client label.name vs).bind ?_
      rintro vs _ rfl
      exact setStack hL vs

theorem executeBody (hL : L.Sound) (he : Nested.Alike L e e') (name : String)
    {l l' : Option Location} (hl : L.loose = false → l = l') :
    ∀ body body' : List (Word × Location),
      Word.blurBody L.relocates body = Word.blurBody L.relocates body' →
        (L.loose = true → Word.BlindBody body) →
          Alike L L (· = ·) (executeBody e name l body) (executeBody e' name l' body')
  | [], body', h, _ => by
    obtain rfl := Word.of_blurBody_nil h
    unfold Wordstack.executeBody
    exact pure rfl
  | (v, location) :: rest, body', h, hb => by
    obtain ⟨w, location', rest', rfl, hw, hlocation, hrest⟩ := Word.of_blurBody_cons h
    have hplace : L.loose = false → location = location' := fun hloose => by
      rwa [hL.relocates_eq_false hloose] at hlocation
    unfold Wordstack.executeBody
    refine ((noteDispatch hL hw fun hloose => congrArg some (hplace hloose)).bind fun _ _ _ =>
      (execute hL he v w hw fun h => (hb h).1).call).call.attempt.bind fun a b hab => ?_
    cases hab with
    | ok => exact executeBody hL he name hl rest rest' hrest fun h => (hb h).2
    | error hf =>
      simp only
      rw [hf.isStop_eq]
      split
      · exact throw hf
      · refine throw (hL.fault ?_ fun hloose => ?_)
        · simp [Fault.blur, hf.blur_eq]
        · rw [hl hloose, hplace hloose, hL.eq_of_fault hf hloose]
end

/-- A word is executed once, on either side where it stands there. -/
theorem dispatch (hL : L.Sound) (he : Nested.Alike L e e') {v w : Word}
    (h : v.blur L.relocates = w.blur L.relocates) (hb : L.loose = true → v.Blind)
    {l l' : Option Location} (hl : L.loose = false → l = l') :
    Alike L L (· = ·) (dispatch e v l) (dispatch e' w l') := by
  unfold Wordstack.dispatch
  exact (noteDispatch hL h hl).bind fun _ _ _ => (execute hL he v w h hb).call

end Task.Alike

end Wordstack
