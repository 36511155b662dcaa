import Wordstack.Proofs.Bridge.CodeProperty
import Wordstack.Proofs.Machine.Calls
import Wordstack.Proofs.Machine.OnOperands
import Wordstack.Proofs.Machine.Staying
import Wordstack.Proofs.Runs.DefinedWord

/-!
# Early binding

A definition holds the words that it calls, not their names. What a program does later, under
whatever names, makes no difference to a definition on operands.

- **Identities** (`Calls.ids_le`): none is taken back by what a program does.
- **Later states** (`Pairing.shifted`, `Coupling.shifted`): identities from before stand for
  themselves, and the next ones for the next ones.
- **Agreement** (`Outcome.Agrees`, `definitions_are_bound_early`).
-/

namespace Wordstack

/-! ## Identities -/

/-- Stores in which identities have been given out go on being such. -/
theorem Store.memoProperty_ids (n : Nat) : MemoProperty fun s => n ≤ s.nextId where
  congr h hs := Nat.le_trans hs h.ids
  addMemoWords _ _ s hs := Nat.le_trans hs (Nat.le_add_right s.nextId 3)

/-- No code takes identities back. -/
def CodeProperty.issuing (n : Nat) : CodeProperty :=
  staying (Store.memoProperty_ids n) (fun _ => True) fun _ _ _ hrun =>
    hrun.refresh (Store.memoProperty_ids n) fun _ _ hs => hs

theorem Call.holds {K : CodeProperty} {e : Nested} (he : K.HoldsNested e) (c : Call) :
    K.Holds (c.task e) := by
  cases c with
  | run source origin => exact CodeProperty.runSource he source origin
  | word name => exact CodeProperty.executeWord he name
  | use imports => exact CodeProperty.useModules he imports
  | load m => exact CodeProperty.initializeModule he m

theorem Calls.ids_le {depth : Nat} {i j : Interp} {s t : Store}
    (h : Calls (nested depth) i s j t) : s.nextId ≤ t.nextId := by
  induction h with
  | start => exact Nat.le_refl _
  | @call j k t u r c _ hc _ ih =>
    let K := CodeProperty.issuing t.nextId
    have hstays : K.Holds (c.task (nested depth)) :=
      c.holds (CodeProperty.holdsNested (fun _ => trivial) depth)
    exact Nat.le_trans ih ((hstays j t (Nat.le_refl _)).of_finish hc)

/-- Calls take no text in progress away. -/
theorem Calls.inputs {depth : Nat} {i j : Interp} {s t : Store}
    (h : Calls (nested depth) i s j t) : j.inputs = i.inputs := by
  induction h with
  | start => rfl
  | call c _ hc hr ih =>
    exact (c.finish_keeps (Invariant.trivial 0) trivial hc hr).1.trans ih

/-! ## Later states -/

/-- Identities that had been given out stand for themselves, and later ones for those that are
further on by a gap. -/
def Pairing.shifted (issued gap : Nat) : Pairing where
  module := (· = ·)
  cell := (· = ·)
  memo := (· = ·)
  id x y := x < issued ∧ y = x ∨ issued ≤ x ∧ y = x + gap
  module_unique := ⟨fun _ _ _ h h' => h.trans h'.symm, fun _ _ _ h h' => h.symm.trans h'⟩
  cell_unique := ⟨fun _ _ _ h h' => h.trans h'.symm, fun _ _ _ h h' => h.symm.trans h'⟩
  memo_unique := ⟨fun _ _ _ h h' => h.trans h'.symm, fun _ _ _ h h' => h.symm.trans h'⟩
  id_unique := ⟨fun _ _ _ h h' => by omega, fun _ _ _ h h' => by omega⟩

/-- Interpreters that have the same operands but for identities, the same open brackets and the same
text in progress. -/
structure Interp.SameOperands (P : Pairing) (i j : Interp) : Prop where
  stack : Val.AllPaired P i.stack.values j.stack.values
  marks : i.marks = j.marks
  topInput : i.topInput = j.topInput

/-- Stores in which the next identities stand for each other. -/
structure Store.Shifted (issued gap : Nat) (s t : Store) : Prop where
  ids : issued ≤ s.nextId
  gap : t.nextId = s.nextId + gap

/-- The same operands, a word that is called at the same place, and stores whose next identities
stand for each other. -/
def Coupling.shifted (issued gap : Nat) : Coupling where
  interps i j := i.SameOperands (.shifted issued gap) j ∧ i.call = j.call
  stores := Store.Shifted issued gap

section Shifted

variable {issued gap : Nat} {e : Nested} {i j : Interp} {s t : Store}

theorem Pairing.id_shifted {id : Nat} (h : id < issued) : (shifted issued gap).id id id :=
  Or.inl ⟨h, rfl⟩

theorem Val.Issued.shifted {v : Val} (h : v.Issued issued) : v.Paired (.shifted issued gap) v :=
  h.paired (fun _ => rfl) (fun _ => rfl) fun _ => Pairing.id_shifted

theorem Val.AllIssued.shifted {vs : List Val} (h : AllIssued issued vs) :
    AllPaired (.shifted issued gap) vs vs :=
  h.paired (fun _ => rfl) (fun _ => rfl) fun _ => Pairing.id_shifted

namespace Store.Shifted

theorem log (h : s.Shifted issued gap t) (level : LogLevel) (scope message : String) :
    (s.log level scope message).Shifted issued gap (t.log level scope message) := by
  have hids : ∀ s : Store, (s.log level scope message).nextId = s.nextId := by
    intro s
    unfold Store.log
    split <;> rfl
  exact ⟨hids s ▸ h.ids, by rw [hids, hids, h.gap]⟩

theorem freshId (h : s.Shifted issued gap t) :
    (Pairing.shifted issued gap).id s.freshId.1 t.freshId.1 ∧
      s.freshId.2.Shifted issued gap t.freshId.2 := by
  refine ⟨Or.inr ⟨h.ids, h.gap⟩, Nat.le_succ_of_le h.ids, ?_⟩
  show t.nextId + 1 = s.nextId + 1 + gap
  rw [h.gap, Nat.add_right_comm]

end Store.Shifted

namespace Coupling

theorem onStacks_shifted (issued gap : Nat) :
    (shifted issued gap).OnStacks (.shifted issued gap) where
  stack h := h.1.stack
  marks h := h.1.marks
  call h := h.2
  topInput h := h.1.topInput
  withStack h hstack := ⟨⟨hstack, h.1.marks, h.1.topInput⟩, h.2⟩
  withMarks _ h := ⟨⟨h.1.stack, rfl, h.1.topInput⟩, h.2⟩
  dispatching _ h _ _ := ⟨⟨h.1.stack, h.1.marks, h.1.topInput⟩, rfl⟩
  log level scope message h := Store.Shifted.log h level scope message
  print _ h := ⟨h.ids, h.gap⟩

/-- Queries about operands ask for nothing that a program changes between two calls, but for the
identities that are given out. -/
theorem answers_shifted (issued gap : Nat) (e : Nested) :
    (shifted issued gap).Answers (.shifted issued gap) e Query.isOnOperands where
  toOnStacks := onStacks_shifted issued gap
  answer {q q' S} hasks hq := by
    obtain honStack | rfl := Query.isOnStack_or_fresh hasks
    · exact (onStacks_shifted issued gap).answer e hq honStack
    · cases hq
      have hfresh : Task.Coupled (shifted issued gap) (Pairing.shifted issued gap).id
          (Task.ofStore Store.freshId) (Task.ofStore Store.freshId) :=
        .ofStore fun hs => Store.Shifted.freshId hs
      exact hfresh

end Coupling

end Shifted

/-! ## Agreement -/

/-- The same end of two tasks: with the same stacks but for identities, and with the same fault but
for places, if it is one. -/
inductive Outcome.Agrees (P : Pairing) : Outcome Unit → Outcome Unit → Prop
  | ok {i j : Interp} {s t : Store} (h : Val.AllPaired P i.stack.values j.stack.values) :
    Agrees P (.ended (.ok ()) i s) (.ended (.ok ()) j t)
  | fault {f g : Fault} {i j : Interp} {s t : Store} (hf : f.blur = g.blur)
    (h : Val.AllPaired P i.stack.values j.stack.values) :
    Agrees P (.ended (.fault f) i s) (.ended (.fault g) j t)

section Agreement

variable {e : Nested} {i j : Interp} {s t : Store} {issued gap : Nat}

/-- Bodies on operands agree wherever their definition is called. -/
theorem executeBody_agrees {name : String} {call call' : Option Location} :
    ∀ {body : List (Word × Location)} {i j : Interp} {s t : Store},
      Word.BodyOnOperands issued body → i.SameOperands (.shifted issued gap) j →
      s.Shifted issued gap t →
      ((executeBody e name call body).finish i s).Agrees (.shifted issued gap)
        ((executeBody e name call' body).finish j t)
  | [], i, j, s, t, _, hij, _ => by
    unfold executeBody
    exact .ok hij.stack
  | (w, l) :: rest, i, j, s, t, h, hij, hst => by
    rw [Word.BodyOnOperands] at h
    rw [finish_executeBody_cons, finish_executeBody_cons, finish_dispatch, finish_dispatch]
    -- once the entry is dispatched, it does not matter any more where the definition was called
    have hnoted : (Coupling.shifted issued gap).interps (i.dispatching w (some l))
        (j.dispatching w (some l)) := ⟨⟨hij.stack, hij.marks, hij.topInput⟩, rfl⟩
    have hcoupled := ((Coupling.answers_shifted issued gap e).execute Val.Issued.shifted h.1).finish
      hnoted hst
    have hcomplete : ((execute e w).finish (i.dispatching w (some l)) s).Complete :=
      Task.Completes.execute h.1 _ s
    generalize (execute e w).finish (i.dispatching w (some l)) s = x,
      (execute e w).finish (j.dispatching w (some l)) t = y at hcoupled hcomplete
    cases hcoupled with
    | exhausted | hung => cases hcomplete
    | ok _ hij hst => exact executeBody_agrees h.2 hij.1 hst
    | fault f hij _ =>
      simp only [Outcome.attempt, Outcome.bind, finishEntry]
      split
      · exact .fault rfl hij.1.stack
      · exact .fault rfl hij.1.stack

/-- Once a definition on operands has been compiled, it comes to the same whatever a program does
afterwards: on any stack of values that there were before, it leaves the same stack, or fails with
the same fault but for places, wherever it is called between the runs. It always does one of the
two. -/
theorem definitions_are_bound_early {depth : Nat} {label : WordLabel}
    {body : List (Word × Location)} {stack : OperandStack} {l l' : Option Location}
    (hbody : Word.OnOperands s.nextId (.definition label body))
    (hstack : Val.AllIssued s.nextId stack.values) (hin : i.inputs = []) (hmarks : i.marks = [])
    (hlater : Calls (nested depth) i s j t) (hmarks' : j.marks = []) :
    ((dispatch e (.definition label body) l).finish { i with stack } s).Agrees
      (.shifted s.nextId (t.nextId - s.nextId))
      ((dispatch e (.definition label body) l').finish { j with stack } t) := by
  have hin' : j.inputs = [] := hlater.inputs.trans hin
  have hids := hlater.ids_le
  rw [finish_dispatch, finish_dispatch, finish_execute_definition, finish_execute_definition]
  rw [Word.OnOperands] at hbody
  refine executeBody_agrees hbody ⟨hstack.shifted, hmarks.trans hmarks'.symm, ?_⟩
    ⟨Nat.le_refl _, (Nat.add_sub_cancel' hids).symm⟩
  show (i.inputs.getLast?).getD "" = (j.inputs.getLast?).getD ""
  rw [hin, hin']

end Agreement

/-! ## Redefined names -/

/-- A word of the core vocabulary. -/
def Core.wordOf (spec : NativeSpec) (inputs : Nat) : Word :=
  .native { name := spec.name } inputs false spec.waits spec.code []

/-- Entries that leave options. -/
def makingOptions : List (Word × Location) :=
  [(.openArray, .origin), (.constant { name := ".key" } (.str "key"), .origin),
   (.constant { name := "1" } (.int 1), .origin), (.closeArray, .origin),
   (Core.wordOf Core.natives[15] 1, .origin)]

/-- A definition that calls another one. -/
def callingMake : Word :=
  .definition { name := "W" }
    [(Core.wordOf Core.natives[2] 2, .origin),
     (.definition { name := "MAKE" } makingOptions, .origin)]

/-- The words of a module with the two definitions, and what they are made of. -/
def wordsBeforehand : List Word :=
  [Core.wordOf Core.natives[2] 2, Core.wordOf Core.natives[15] 1, Core.wordOf Core.natives[3] 1,
   Core.wordOf Core.natives[7] 1, .definition { name := "MAKE" } makingOptions, callingMake]

/-- A program that gives other meanings to the names that the definition was compiled from, and to
its own. -/
def redefining : String :=
  "[ \"W\" ] VARIABLES [ \"MAKE\" ] EXPORT : SWAP 1 ; : MAKE SWAP ; @: ~> 7 ; " ++
    "\x7bsub : W ; \x7d : W ~> ;"

theorem callingMake_onOperands (issued : Nat) : callingMake.OnOperands issued := by
  have hswap : (Core.wordOf Core.natives[2] 2).OnOperands issued :=
    ⟨Core.onOperandsAnd (List.getElem_mem _) (by decide), nofun⟩
  have hoptions : (Core.wordOf Core.natives[15] 1).OnOperands issued :=
    ⟨Core.onOperandsAnd (List.getElem_mem _) (by decide), nofun⟩
  exact ⟨hswap, ⟨⟨⟩, ⟨⟩, ⟨⟩, ⟨⟩, hoptions, ⟨⟩⟩, ⟨⟩⟩

theorem definitions_are_bound_early_redefined :
    ∃ j t, (runSource (nested 1) redefining .origin).finish .readingInts
        (.holding wordsBeforehand) = .ended (.ok ()) j t ∧
      ((findIn? t.modules 0 "W").bind fun w => w.label.id) = some 12 ∧
      ((dispatch (nested 1) callingMake none).finish
        { Interp.readingInts with stack := .ofList [.wordRef ⟨0, "SWAP"⟩, .int 2] }
        (.holding wordsBeforehand)).Agrees (.shifted 6 (t.nextId - 6))
        ((dispatch (nested 1) callingMake (some .origin)).finish
          { j with stack := .ofList [.wordRef ⟨0, "SWAP"⟩, .int 2] } t) := by
  obtain ⟨j, t, hrun, hcheck⟩ := Outcome.exists_of_isOk
    (x := (runSource (nested 1) redefining .origin).finish .readingInts (.holding wordsBeforehand))
    (p := fun _ t => ((findIn? t.modules 0 "W").bind fun w => w.label.id) == some 12)
    (by decide +kernel)
  have hstack : Val.AllIssued 6 (OperandStack.ofList [.wordRef ⟨0, "SWAP"⟩, .int 2]).values :=
    ⟨⟨⟩, Nat.zero_lt_succ 5, ⟨⟩⟩
  refine ⟨j, t, hrun, eq_of_beq hcheck, ?_⟩
  exact definitions_are_bound_early (callingMake_onOperands 6) hstack rfl rfl
    (.call (.run redefining .origin) .start hrun Result.ok_ne_exhausted)
    (finish_runSource_marks rfl hrun)

end Wordstack
