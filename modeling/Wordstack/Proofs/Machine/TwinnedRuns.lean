import Wordstack.Proofs.Machine.Runs
import Wordstack.Proofs.Machine.Twinned

/-!
# Twin runs of source text

- **Memo words** (`Twins.coupled_refresh`): what was remembered is the same but for identities.
- **Blocks** (`Twins.coupled_openModule`, `Twins.coupled_closeModule`): new blocks are made in
  modules that the run has made.
- **Words** (`Twins.coupled_execute`): by induction on the relation between them.
- **Runs** (`Twins.coupled_runSource`): one lemma for each task, in the order of the definitions.
-/

namespace Wordstack

namespace Twins

variable {T : Twins} {i j : Interp} {s t : Store} {m n : Nat} {e : Nested}

/-! ## Memo words -/

namespace Memos

variable {x y : Memo}

theorem size_eq (h : T.Memos x y) : x.outcomes.size = y.outcomes.size := h.outcomes.length_eq

theorem finish (h : T.Memos x y) {o o' : Except Fault Val}
    (ho : ExceptPaired (Val.Paired T.pairing) o o') : T.Memos (x.finish o) (y.finish o') :=
  { h with
    outcomes := by
      rw [Memo.finish, Memo.finish, Array.toList_push, Array.toList_push]
      exact List.rel_append h.outcomes (.cons ho .nil) }

theorem close (h : T.Memos x y) {o o' : Except Fault Val}
    (ho : ExceptPaired (Val.Paired T.pairing) o o') : T.Memos (x.close o) (y.close o') := by
  refine { h with value := ?_, current := rfl }
  cases ho with
  | ok hv => exact .some hv
  | error f => exact h.value

theorem outcome? (h : T.Memos x y) (run : Nat) :
    Option.Rel (ExceptPaired (Val.Paired T.pairing)) (x.outcome? run) (y.outcome? run) := by
  unfold Memo.outcome?
  rw [← Array.getElem?_toList, ← Array.getElem?_toList]
  generalize x.outcomes.toList = a, y.outcomes.toList = b, h.outcomes = hab
  induction hab generalizing run with
  | nil => exact .none
  | cons ho _ ih =>
    cases run with
    | zero => exact .some ho
    | succ run => exact ih run

end Memos

section MemoWords

variable {c d : Nat}

theorem coupled_outcome? (hcd : T.pairing.memo c d) (number : Nat) :
    T.Tasks (Option.Rel (ExceptPaired (Val.Paired T.pairing)))
      (Task.view fun _ s => (s.memo c).outcome? number)
      (Task.view fun _ s => (s.memo d).outcome? number) :=
  .view fun _ hs => (hs.memo hcd).outcome? number

theorem coupled_setMemo (hcd : T.pairing.memo c d) {f g : Memo → Memo}
    (hfg : ∀ {x y}, T.Memos x y → T.Memos (f x) (g y)) :
    T.Tasks (· = ·) (Task.updateStore fun s => s.setMemo c (f (s.memo c)))
      (Task.updateStore fun s => s.setMemo d (g (s.memo d))) :=
  .updateStore fun hs => hs.setMemo hcd (hfg (hs.memo hcd))

theorem coupled_conclude (hcd : T.pairing.memo c d) {o o' : Except Fault Val}
    (ho : ExceptPaired (Val.Paired T.pairing) o o') :
    T.Tasks (Val.Paired T.pairing) (Task.conclude c o) (Task.conclude d o') := by
  unfold Task.conclude
  refine (coupled_setMemo hcd fun h => h.finish ho).bind fun _ _ _ => Task.Coupled.turn.bind
    fun _ _ _ => ?_
  exact (coupled_setMemo hcd fun h => h.close ho).bind fun _ _ _ => .lift ho

/-- The end of a run is there on both sides, or on none. -/
theorem coupled_waitMemo (hcd : T.pairing.memo c d) (number : Nat) :
    T.Tasks (· = ·) (Task.wait (.memoRun c number)) (Task.wait (.memoRun d number)) := by
  have hfinish : ∀ (c : Nat) (i : Interp) (s : Store),
      (Task.wait (.memoRun c number)).finish i s =
        if ((s.memo c).outcome? number).isSome then .ended (.ok .ready) i s else .hung s :=
    fun _ _ _ => rfl
  refine ⟨fun {i j s t} hi hs => ?_⟩
  have houtcome := (hs.memo hcd).outcome? number
  rw [hfinish, hfinish]
  generalize (s.memo c).outcome? number = a, (t.memo d).outcome? number = b at houtcome
  cases houtcome with
  | none => exact .hung hs
  | some _ => exact .ok rfl hi hs

theorem coupled_join (hcd : T.pairing.memo c d) (number : Nat) :
    T.Tasks (Val.Paired T.pairing) (Task.join c number) (Task.join d number) := by
  have hlast : ∀ x y : Option (Except Fault Val) → Task Val,
      (∀ o, x (some o) = Task.lift o ∧ y (some o) = Task.lift o) →
      x none = Task.exhausted ∧ y none = Task.exhausted →
      T.Tasks (Val.Paired T.pairing) ((Task.view fun _ s => (s.memo c).outcome? number) >>= x)
        ((Task.view fun _ s => (s.memo d).outcome? number) >>= y) := by
    intro x y hsome hnone
    refine (coupled_outcome? hcd number).bind fun o o' ho => ?_
    cases ho with
    | none =>
      rw [hnone.1, hnone.2]
      exact .exhausted
    | some ho =>
      rw [(hsome _).1, (hsome _).2]
      exact .lift ho
  unfold Task.join
  refine Task.Coupled.turn.bind fun _ _ _ => (coupled_outcome? hcd number).bind fun o o' ho => ?_
  cases ho with
  | some =>
    exact Task.Coupled.turn.bind fun _ _ _ => hlast _ _ (fun _ => ⟨rfl, rfl⟩) ⟨rfl, rfl⟩
  | none =>
    exact (coupled_waitMemo hcd number).bind fun _ _ _ => hlast _ _ (fun _ => ⟨rfl, rfl⟩) ⟨rfl, rfl⟩

/-- A run of a memo's word is one of its own, or the one in progress, on both sides. -/
theorem coupled_refresh (hcd : T.pairing.memo c d) {x y : Task Unit} (hxy : T.Tasks (· = ·) x y) :
    T.Tasks (Val.Paired T.pairing) (refresh c x) (refresh d y) := by
  refine ⟨fun {i j s t} hi hs => ?_⟩
  have hm := hs.memo hcd
  unfold Task.finish
  cases hcurrent : (s.memo c).current with
  | none =>
    rw [refresh_of_idle hcurrent, refresh_of_idle (hm.current ▸ hcurrent)]
    refine Task.Coupled.finish ?_ hi (hs.setMemo hcd
      { hm with current := congrArg some hm.size_eq })
    exact (hxy.call.bind fun _ _ _ => T.onStacks.pop).attempt.bind fun o o' ho =>
      coupled_conclude hcd ho
  | some number =>
    rw [refresh_of_running hcurrent, refresh_of_running (hm.current ▸ hcurrent)]
    exact (coupled_join hcd number).finish hi (hs.setMemo hcd hm)

end MemoWords

/-! ## Brackets -/

/-- A block is one of a new module, and new itself. -/
theorem coupled_openModule (name : String) :
    T.Tasks (· = ·) (openModule name) (openModule name) := by
  unfold openModule
  split
  · exact .update fun hi => hi.enter hi.app
  refine (coupled_current _).bind fun parent parent' hparent => ?_
  refine Task.Coupled.bind (R := T.NewModules) (.view fun _ hs => hs.new hparent)
    fun x y hxy => ?_
  have hchild := Named.lookup hxy.children name
  generalize x.children.lookup name = a, y.children.lookup name = b at hchild
  cases hchild with
  | some hchild => exact .update fun hi => hi.enter hchild
  | none =>
    refine Task.Coupled.bind (R := T.Made) (.ofStore fun hs => ?_) fun child child' hchild => ?_
    · obtain ⟨hmade, hs⟩ := hs.addModule (x := { name }) (y := { name })
        ⟨⟨rfl, rfl, rfl, .nil, rfl, .nil, .nil⟩, ⟨rfl, rfl⟩, .nil⟩
      exact ⟨hmade, hs.updateModule hparent fun hxy =>
        { hxy with
          children := List.rel_append hxy.children (.cons (.mk name hmade) .nil) }⟩
    · refine .update fun {i j} hi => ?_
      have houter : parent = i.app ↔ parent' = j.app :=
        Relator.rel_eq (Later.unique _ _) hparent hi.app
      refine { hi.enter hchild with registered := ?_ }
      by_cases hp : parent = i.app
      · simp only [if_pos hp, if_pos (houter.mp hp)]
        exact Named.setField hi.registered name hchild.found
      · simp only [if_neg hp, if_neg (mt houter.mpr hp)]
        exact hi.registered

theorem coupled_closeModule : T.Tasks (· = ·) closeModule closeModule := by
  unfold closeModule
  refine Task.Coupled.interp.bind fun i j (hi : T.Interps i j) => ?_
  rw [hi.scope.length_eq, hi.topInput_eq, hi.call]
  split
  · exact .throw _
  · exact .update fun hi => hi.leave

/-! ## Words -/

mutual
theorem coupled_execute (he : T.Runs e) :
    ∀ {v w : Word}, v.Paired T.pairing w → T.Tasks (· = ·) (execute e v) (execute e w)
  | _, _, .constant _ hv => by
    unfold execute
    exact T.onStacks.push hv
  | _, _, .definition hl hbody => by
    unfold execute
    rw [hl.name]
    exact Task.Coupled.bind (R := (· = ·)) (.view fun hi _ => hi.call) fun call _ h =>
      h ▸ coupled_executeBody he _ call hbody
  | _, _, .native hl inputs takesOptions waits hcode hh => by
    unfold execute
    exact (answers he).guarded hl.name hl.home (asking_handlers hh)
      (((answers he).callNative inputs takesOptions waits hcode fun _ _ => Native.asks_all _).mono
        fun _ _ _ => ⟨⟩)
  | _, _, .direct hl waits hcode hh => by
    unfold execute
    exact (answers he).guarded hl.name hl.home (asking_handlers hh)
      ((((answers he).perform (hcode T.pairing) (Native.asks_all _)).callCode waits).mono
        fun _ _ _ => ⟨⟩)
  | _, _, .memo _ hcd hw => by
    unfold execute
    refine Task.Coupled.bind (R := Option.Rel (Val.Paired T.pairing))
      (.view fun _ hs => (hs.memo hcd).value) fun value value' hvalue => ?_
    cases hvalue with
    | some hv => exact T.onStacks.push hv
    | none =>
      exact (coupled_refresh hcd (coupled_execute he hw)).call.bind fun _ _ hv => T.onStacks.push hv
  | _, _, .memoRefresh _ hcd hw => by
    unfold execute
    exact (coupled_refresh hcd (coupled_execute he hw)).call.bind fun _ _ _ => .pure rfl
  | _, _, .memoReload _ hcd hw => by
    unfold execute
    exact (coupled_refresh hcd (coupled_execute he hw)).call.bind fun _ _ hv => T.onStacks.push hv
  | _, _, .openArray => by
    unfold execute
    exact T.onStacks.openArray
  | _, _, .closeArray => by unfold execute; exact T.onStacks.closeArray
  | _, _, .openModule name => by unfold execute; exact coupled_openModule name
  | _, _, .closeModule => by unfold execute; exact coupled_closeModule

theorem coupled_executeBody (he : T.Runs e) (name : String) (call : Option Location) :
    ∀ {body body' : List (Word × Location)}, Word.BodyPaired T.pairing body body' →
      T.Tasks (· = ·) (executeBody e name call body) (executeBody e name call body')
  | [], _, .nil => by unfold executeBody; exact .pure rfl
  | (v, _) :: _, _, .cons (.mk hw l) hrest => by
    unfold executeBody
    refine ((T.onStacks.noteDispatch hw.isProfiled_eq hw.qualifiedName_eq _).bind fun _ _ _ =>
      (coupled_execute he hw).call).call.attempt.bind fun outcome outcome' houtcome => ?_
    cases houtcome with
    | ok => exact coupled_executeBody he name call hrest
    | error f =>
      dsimp only
      split
      · exact .throw _
      · exact .throw _
end

theorem coupled_dispatch (he : T.Runs e) {v w : Word} (hw : v.Paired T.pairing w)
    (l : Option Location) : T.Tasks (· = ·) (dispatch e v l) (dispatch e w l) :=
  (T.onStacks.noteDispatch hw.isProfiled_eq hw.qualifiedName_eq l).bind fun _ _ _ =>
    (coupled_execute he hw).call

/-! ## Tokens -/

theorem coupled_initializePending :
    T.Tasks (· = ·) (initializePending e) (initializePending e) := by
  refine ⟨fun {i j s t} hi hs => ?_⟩
  rw [finish_initializePending_nil hi.pending.1, finish_initializePending_nil hi.pending.2]
  exact .ok rfl hi hs

theorem Definitions.compile {d d' : OpenDefinition} (h : T.Definitions d d') {v w : Word}
    (hw : v.Paired T.pairing w) (l : Location) :
    T.Definitions (compile v l d) (compile w l d') :=
  { h with body := List.rel_append h.body (.cons (.mk hw l) .nil) }

theorem Definitions.word {d d' : OpenDefinition} (h : T.Definitions d d') :
    d.word.Paired T.pairing d'.word := by
  unfold OpenDefinition.word
  exact .definition ⟨h.name, .none, rfl, rfl, rfl, congrArg some h.location⟩ h.body

theorem coupled_handleWord (he : T.Runs e) {v w : Word} (hw : v.Paired T.pairing w)
    (l : Location) : T.Tasks (· = ·) (handleWord e v l) (handleWord e w l) := by
  unfold handleWord
  refine Task.Coupled.interp.bind fun i j (hi : T.Interps i j) => ?_
  have hdefinition := hi.definition
  rw [hi.compiling]
  generalize j.compiling = compiling, i.definition = a, j.definition = b at hdefinition
  cases hdefinition with
  | none => cases compiling <;> exact (coupled_dispatch he hw _).call
  | some hd =>
    cases compiling with
    | true => exact .update fun hi => { hi with definition := .some (hd.compile hw l) }
    | false => exact (coupled_dispatch he hw _).call

theorem coupled_handleImmediate (he : T.Runs e) {v w : Word} (hw : v.Paired T.pairing w)
    (l : Location) : T.Tasks (· = ·) (handleImmediate e v l) (handleImmediate e w l) := by
  unfold handleImmediate
  refine Task.Coupled.bind (R := (· = ·)) (.update fun {i j} hi => ?_) fun _ _ _ =>
    (coupled_dispatch he hw _).call
  by_cases hc : j.compiling = true
  · rw [if_pos hc, if_pos (hi.compiling.trans hc)]
    refine { hi with definition := ?_ }
    have hdefinition := hi.definition
    show Option.Rel T.Definitions (i.definition.map _) (j.definition.map _)
    generalize i.definition = a, j.definition = b at hdefinition
    cases hdefinition with
    | none => exact .none
    | some hd => exact .some (hd.compile hw l)
  · rw [if_neg hc, if_neg (hi.compiling ▸ hc)]
    exact hi

theorem coupled_startDefinition (k : Token) :
    T.Tasks (· = ·) (startDefinition k) (startDefinition k) := by
  unfold startDefinition
  refine Task.Coupled.interp.bind fun i j (hi : T.Interps i j) => ?_
  rw [hi.compiling, hi.topInput_eq, hi.previous]
  split
  · exact .throw _
  · exact .update fun hi => { hi with
      compiling := rfl
      memoDefinition := rfl
      definition := .some ⟨rfl, rfl, .nil⟩ }

theorem coupled_endDefinition (k : Token) :
    T.Tasks (· = ·) (endDefinition k) (endDefinition k) := by
  unfold endDefinition
  refine Task.Coupled.interp.bind fun i j (hi : T.Interps i j) => ?_
  have hclose : T.Tasks (· = ·)
      (Task.update fun i => { i with
        compiling := false, memoDefinition := false, definition := none })
      (Task.update fun i => { i with
        compiling := false, memoDefinition := false, definition := none }) :=
    .update fun hi => { hi with compiling := rfl, memoDefinition := rfl, definition := .none }
  have hdefinition := hi.definition
  rw [hi.compiling, hi.memoDefinition, hi.topInput_eq]
  generalize j.compiling = compiling, i.definition = a, j.definition = b at hdefinition
  cases hdefinition with
  | none => cases compiling <;> exact .throw _
  | some hd =>
    cases compiling with
    | false => exact .throw _
    | true =>
      dsimp only
      split
      · refine (coupled_current _).bind fun m n hmn => ?_
        exact Task.Coupled.bind (R := (· = ·))
          (.updateStore fun hs => hs.addMemoWords hmn hd.word) fun _ _ _ => hclose
      · refine (coupled_current _).bind fun m n hmn => ?_
        exact Task.Coupled.bind (R := (· = ·))
          (.updateStore fun hs => hs.addWord hmn hd.word) fun _ _ _ => hclose

theorem coupled_handleToken (he : T.Runs e) (k : Token) :
    T.Tasks (· = ·) (handleToken e k) (handleToken e k) := by
  have hstr : ∀ name s, (Word.constant { name } (.str s)).Paired T.pairing (.constant { name } (.str s)) :=
    fun _ s => .constant (WordLabel.paired_of_none rfl) (.str s)
  unfold handleToken
  split
  · exact (coupled_handleWord he (hstr _ _) _).handOn
  · exact (coupled_handleWord he (hstr _ _) _).handOn
  · exact .pure rfl
  · exact (coupled_handleWord he .openArray _).handOn
  · exact (coupled_handleWord he .closeArray _).handOn
  · exact (coupled_handleImmediate he (.openModule _) _).handOn
  · exact (coupled_handleImmediate he .closeModule _).handOn
  · exact coupled_startDefinition k
  · exact coupled_startDefinition k
  · exact coupled_endDefinition k
  · refine (coupled_resolve _ _).bind fun found found' hfound => ?_
    exact (Task.Coupled.lift hfound).bind fun v w hw => (coupled_handleWord he hw _).handOn
  · refine Task.Coupled.interp.bind fun i j (hi : T.Interps i j) => ?_
    rw [hi.compiling, hi.topInput_eq, hi.previous]
    split
    · exact .throw _
    · exact .pure rfl

/-! ## Runs -/

theorem coupled_runTokens (he : T.Runs e) (bound : Nat) (sc : Scanner) :
    T.Tasks (· = ·) (runTokens e bound sc) (runTokens e bound sc) := by
  induction bound generalizing sc with
  | zero => exact .exhausted
  | succ bound ih =>
    unfold runTokens
    split
    · exact .pure rfl
    · refine (coupled_handleToken he _).call.attempt.bind fun outcome outcome' houtcome => ?_
      cases houtcome with
      | error f => exact .pure rfl
      | ok =>
        refine Task.Coupled.bind (R := (· = ·)) (.update fun hi => { hi with previous := rfl })
          fun _ _ _ => ?_
        split
        · exact .pure rfl
        · exact ih _

theorem coupled_runScanner (he : T.Runs e) (sc : Scanner) :
    T.Tasks (· = ·) (runScanner e sc) (runScanner e sc) := by
  unfold runScanner
  refine Task.Coupled.interp.bind fun i j (hi : T.Interps i j) => ?_
  rw [hi.recovery.1, hi.recovery.2]
  refine (coupled_runTokens he _ sc).call.bind fun stopped _ h => h ▸ ?_
  split
  · exact .pure rfl
  · exact .throw _

theorem coupled_checkBrackets (isOutermost : Bool) :
    T.Tasks (· = ·) (checkBrackets isOutermost) (checkBrackets isOutermost) := by
  unfold checkBrackets
  refine Task.Coupled.interp.bind fun i j (hi : T.Interps i j) => ?_
  rw [hi.marks, hi.topInput_eq, hi.previous]
  split
  · exact .throw _
  · exact .pure rfl

/-- What failed runs put back is the same but for identities. -/
structure Transients (T : Twins) (saved saved' : Transient) : Prop where
  compiling : saved.compiling = saved'.compiling
  memoDefinition : saved.memoDefinition = saved'.memoDefinition
  definition : Option.Rel T.Definitions saved.definition saved'.definition
  marks : saved.marks = saved'.marks
  scope : saved.scope = saved'.scope

theorem Interps.transient (h : T.Interps i j) : T.Transients i.transient j.transient :=
  ⟨h.compiling, h.memoDefinition, h.definition, congrArg List.length h.marks, h.scope.length_eq⟩

theorem Interps.restore (h : T.Interps i j) {saved saved' : Transient}
    (hsaved : T.Transients saved saved') : T.Interps (i.restore saved) (j.restore saved') where
  recovery := h.recovery
  registry := h.registry
  registered := h.registered
  app := h.app
  scope := by
    show List.Forall₂ T.Made (Interp.outermost _ i.scope) (Interp.outermost _ j.scope)
    unfold Interp.outermost
    rw [hsaved.scope, h.scope.length_eq]
    exact List.forall₂_drop _ h.scope
  readers := h.readers
  literals := h.literals
  stack := h.stack
  profile := h.profile
  inputs := h.inputs
  previous := h.previous
  call := h.call
  compiling := hsaved.compiling
  memoDefinition := hsaved.memoDefinition
  definition := hsaved.definition
  marks := by
    show Interp.outermost _ i.marks = Interp.outermost _ j.marks
    rw [hsaved.marks, h.marks]
  pending := h.pending
  pool := h.pool

theorem Interps.reading (h : T.Interps i j) (f : List String → List String) :
    T.Interps { i with inputs := f i.inputs } { j with inputs := f j.inputs } :=
  { h with inputs := congrArg f h.inputs }

theorem coupled_closeRun {saved saved' : Transient} (hsaved : T.Transients saved saved')
    {o o' : Except Fault Unit} (ho : ExceptPaired (· = ·) o o') :
    T.Tasks (· = ·) (Task.closeRun saved o) (Task.closeRun saved' o') := by
  cases ho with
  | ok => exact .update fun hi => hi.reading List.tail
  | error f =>
    refine Task.Coupled.bind (R := (· = ·)) (.update fun hi => ?_) fun _ _ _ => .throw f
    exact (hi.restore hsaved).reading List.tail

theorem coupled_ownRun (he : T.Runs e) (isOutermost : Bool) (sc : Scanner) :
    T.Tasks (· = ·) (Task.ownRun e isOutermost sc) (Task.ownRun e isOutermost sc) := by
  unfold Task.ownRun
  refine Task.Coupled.bind (R := T.Transients) (.view fun hi _ => hi.transient)
    fun saved saved' hsaved => ?_
  refine Task.Coupled.bind (R := (· = ·)) (.update fun hi => hi.reading (sc.input :: ·))
    fun _ _ _ => ?_
  exact ((coupled_runScanner he sc).bind fun _ _ _ =>
    coupled_checkBrackets isOutermost).attempt.bind fun _ _ ho => coupled_closeRun hsaved ho

theorem coupled_runSource (he : T.Runs e) (source : String) (origin : Location) :
    T.Tasks (· = ·) (runSource e source origin) (runSource e source origin) := by
  refine ⟨fun {i j s t} hi hs => ?_⟩
  unfold Task.finish
  by_cases hin : i.inputs = []
  · rw [runSource_outermost hin, runSource_outermost (hi.inputs ▸ hin)]
    exact (coupled_initializePending.call.bind fun _ _ _ => coupled_ownRun he true _).finish hi hs
  · rw [runSource_inner hin, runSource_inner (hi.inputs ▸ hin)]
    exact (coupled_ownRun he false _).finish hi hs

theorem coupled_executeWord (he : T.Runs e) (name : String) :
    T.Tasks (· = ·) (executeWord e name) (executeWord e name) := by
  unfold executeWord
  refine coupled_initializePending.call.bind fun _ _ _ => (coupled_resolve _ _).bind
    fun found found' hfound => ?_
  exact (Task.Coupled.lift hfound).bind fun v w hw => (coupled_dispatch he hw none).call

end Twins

end Wordstack
