import Wordstack.Proofs.Machine.Ends
import Wordstack.Proofs.Machine.Keeping
import Wordstack.Proofs.Word.Blind

/-!
# Words that alter nothing

- **Unaltered** (`Unaltered`): dictionaries, imports, scopes and the compile state are what they
  were, and no variable was created. Stacks and the values of variables may differ.
- **Guards** (`Guard.Still`): what does not depend on stacks and values.
- **Still words** (`Unaltered.keeps_execute`): a word whose code asks still queries only keeps every
  such guard, one lemma for each task in the order of the definitions. So it alters nothing
  (`Unaltered.of_still`).
-/

namespace Wordstack

/-- No dictionary has been changed and no variable created, and no import, no scope and no compile
state is another one. -/
structure Unaltered (i : Interp) (s : Store) (j : Interp) (t : Store) : Prop where
  modules : t.modules = s.modules
  scope : j.scope = i.scope
  compileState : j.compileState = i.compileState

/-- A guard that does not depend on the stack and the brackets of an interpreter, on what it counts
and where it is, and not on variables, identities, the clock, the console and connections. -/
structure Guard.Still (G : Guard) : Prop where
  interp : ∀ {i : Interp} (stack : OperandStack) (profile : Profile) (marks : List Nat)
    (call : Option Location), G.interp i → G.interp { i with stack, profile, marks, call }
  store : ∀ {s : Store} (cells : Array Val) (nextId readings : Nat) (console : List ConsoleLine)
    (clients : Array Client) (pools : Array (List (String × Nat))), G.store s →
      G.store { s with cells, nextId, readings, console, clients, pools }

namespace Unaltered

/-- What holds as long as nothing is altered. -/
def guard (i : Interp) (s : Store) : Guard where
  interp j := j.scope = i.scope ∧ j.compileState = i.compileState
  store t := t.modules = s.modules

theorem still_guard (i : Interp) (s : Store) : (guard i s).Still :=
  ⟨fun _ _ _ _ h => h, fun _ _ _ _ _ _ h => h⟩

variable {G : Guard} (hG : G.Still) {i : Interp} {s : Store} {e : Nested}

include hG

/-! ## Primitive tasks -/

theorem keeps_push (v : Val) : (Task.push v).Keeps G fun _ => True :=
  .update fun h => hG.interp _ _ _ _ h

theorem keeps_popN (n : Nat) : (Task.popN n).Keeps G fun _ => True := by
  refine ⟨fun hi hs => ?_⟩
  unfold Task.popN
  split
  · exact .ok ⟨⟩ (hG.interp _ _ _ _ hi) hs
  · exact .fault hi hs

theorem keeps_takeOptions : takeOptions.Keeps G fun _ => True := by
  refine ⟨fun hi hs => ?_⟩
  unfold takeOptions
  split
  · exact .ok ⟨⟩ (hG.interp _ _ _ _ hi) hs
  · exact .ok ⟨⟩ hi hs

theorem keeps_fresh : (Task.ofStore Store.freshId).Keeps G fun _ => True :=
  .ofStore fun hs => ⟨⟨⟩, hG.store _ _ _ _ _ _ hs⟩

theorem keeps_log (level : LogLevel) (scope message : String) :
    (Task.log level scope message).Keeps G fun _ => True := by
  refine .updateStore fun {t} ht => ?_
  unfold Store.log
  split
  · exact hG.store _ _ _ _ _ _ ht
  · exact ht

/-! ## Native code -/

theorem keeps_answer {q : Query} (hq : q.isStill = true) :
    (answer e q).Keeps G fun _ => True := by
  cases q with
  | pop =>
    refine ⟨fun hi hs => ?_⟩
    simp only [answer, Task.pop]
    split
    · exact .ok ⟨⟩ (hG.interp _ _ _ _ hi) hs
    · exact .fault hi hs
  | peek =>
    refine ⟨fun hi hs => ?_⟩
    simp only [answer]
    split
    · exact .ok ⟨⟩ hi hs
    · exact .fault hi hs
  | popN n => exact keeps_popN hG n
  | push v => exact keeps_push hG v
  | setStack vs => exact .update fun h => hG.interp _ _ _ _ h
  | findWord name =>
    refine (Task.Keeps.look _).bind fun found _ => ?_
    refine (Task.Keeps.lift fun _ _ => ⟨⟩).bind fun w (_ : True) => ?_
    split
    · exact .pure ⟨⟩
    · exact (keeps_fresh hG).bind fun _ _ => .pure ⟨⟩
  | findModule name =>
    refine (Task.Keeps.look _).bind fun i _ => ?_
    refine (Task.Keeps.lift fun _ _ => ⟨⟩).bind fun m (_ : True) => ?_
    exact (Task.Keeps.look _).bind fun _ _ => .pure ⟨⟩
  | store cell v => exact .updateStore fun h => hG.store _ _ _ _ _ _ h
  | requireScope operation =>
    refine .bind (P := fun _ => True) ⟨fun hi hs => ?_⟩ fun _ _ => .pure ⟨⟩
    unfold Task.current
    split
    · exact .ok ⟨⟩ hi hs
    · exact .fault hi hs
  | startProfile => exact .update fun h => hG.interp _ _ _ _ h
  | stopProfile => exact .update fun h => hG.interp _ _ _ _ h
  | stamp label =>
    refine .bind (P := fun _ => True) (.ofStore fun hs => ⟨⟨⟩, hG.store _ _ _ _ _ _ hs⟩) fun _ _ => ?_
    exact .update fun h => hG.interp _ _ _ _ h
  | print line => exact .updateStore fun h => hG.store _ _ _ _ _ _ h
  | fresh => exact (keeps_fresh hG)
  | turn => exact .turn
  | never => exact (Task.Keeps.wait _).bind fun _ _ => .pure ⟨⟩
  | connect pool name address =>
    refine ⟨fun hi hs => .ok ⟨⟩ hi ?_⟩
    unfold Store.connect
    split
    · exact hs
    · exact hG.store _ _ _ _ _ _ hs
  | disconnect pool name =>
    refine ⟨fun {i s} hi hs => .ok ⟨⟩ hi ?_⟩
    unfold Store.disconnect
    split
    · show G.store { s with clients := _, pools := _ }
      exact hG.store _ _ _ _ _ _ hs
    · exact hs
  | top | stack | callLocation | topInput | fetch _ | profile | connections _ => exact .look _
  | run | attempt | variableNamed | exportNames | useModules | useRemote => cases hq

theorem keeps_perform {α : Type} {x : Native α} (hx : x.Asks Query.isStill) :
    (perform e x).Keeps G fun _ => True := by
  induction x with
  | done a => exact .pure ⟨⟩
  | fail f => exact .throw
  | ask q next ih => exact (keeps_answer hG hx.1).bind fun r _ => ih r (hx.2 r)

/-! ## Failures -/

section Failures

variable {handlers : List Handler} (hh : ∀ h ∈ handlers, h.Asks Query.isStill)

include hh

theorem keeps_tryHandlers (name : String) (f : Fault) :
    (tryHandlers e name f handlers).Keeps G fun _ => True := by
  induction handlers with
  | nil => exact .pure ⟨⟩
  | cons h rest ih =>
    obtain ⟨hfirst, hrest⟩ := List.forall_mem_cons.mp hh
    unfold tryHandlers
    refine ((keeps_perform hG (hfirst f)).callCode false).attempt.bind fun outcome _ => ?_
    cases outcome with
    | ok => exact .pure ⟨⟩
    | error f' => exact (keeps_log hG _ _ _).bind fun _ _ => ih hrest

theorem keeps_recover (label : WordLabel) (f : Fault) :
    (recover e label handlers f).Keeps G fun _ => True := by
  unfold recover
  split
  · exact .throw
  refine (keeps_tryHandlers hG hh _ _).call.bind fun handled _ => ?_
  split
  · exact .pure ⟨⟩
  split
  · exact .throw
  · exact (Task.Keeps.look _).bind fun _ _ => .throw

theorem keeps_guarded (label : WordLabel) {x : Task Unit}
    (hx : x.Keeps G fun _ => True) :
    (guarded e label handlers x).Keeps G fun _ => True := by
  unfold guarded
  refine hx.attempt.bind fun outcome _ => ?_
  cases outcome with
  | ok => exact .pure ⟨⟩
  | error f => exact (keeps_recover hG hh label f).call

end Failures

/-! ## Words -/

theorem keeps_callNative (inputs : Nat) (hasOptions waits : Bool)
    {code : List Val → Options → Native (Option Val)}
    (hcode : ∀ args options, (code args options).Asks Query.isStill) :
    (callNative e inputs hasOptions waits code).Keeps G fun _ => True := by
  unfold callNative
  have hrest : ∀ options, (do
      let args ← Task.popN inputs
      let result ← Task.callCode waits (perform e (code args options))
      Task.pushSome result : Task Unit).Keeps G fun _ => True := by
    intro options
    refine (keeps_popN hG inputs).bind fun args _ => ?_
    refine ((keeps_perform hG (hcode args options)).callCode waits).bind fun result _ => ?_
    cases result with
    | some v => exact keeps_push hG v
    | none => exact .pure ⟨⟩
  split
  · exact (keeps_takeOptions hG).bind fun options _ => hrest options
  · exact hrest .empty

theorem keeps_closeArray : closeArray.Keeps G fun _ => True := by
  unfold closeArray
  refine (Task.Keeps.look _).bind fun j _ => ?_
  split
  · exact .throw
  · refine .bind (.update fun h => hG.interp _ _ _ _ h) fun _ _ => ?_
    split
    · exact .throw
    · exact .update fun h => hG.interp _ _ _ _ h

theorem keeps_noteDispatch (w : Word) (l : Option Location) :
    (noteDispatch w l).Keeps G fun _ => True :=
  .update fun h => hG.interp _ _ _ _ h

mutual
theorem keeps_execute (w : Word) (hw : w.Asks Query.isStill) :
    (execute e w).Keeps G fun _ => True := by
  unfold execute
  cases w with
  | constant _ v => exact keeps_push hG v
  | definition label body =>
    exact (Task.Keeps.look _).bind fun call _ => keeps_executeBody label.name call body hw
  | native label inputs hasOptions waits code handlers =>
    exact keeps_guarded hG hw.2 label (keeps_callNative hG inputs hasOptions waits hw.1)
  | direct label waits code handlers =>
    exact keeps_guarded hG hw.2 label ((keeps_perform hG hw.1).callCode waits)
  | openArray => exact .update fun h => hG.interp _ _ _ _ h
  | closeArray => exact (keeps_closeArray hG)
  | memo | memoRefresh | memoReload | openModule | closeModule | remote => exact hw.elim

theorem keeps_executeBody (name : String) (call : Option Location)
    (body : List (Word × Location)) (hbody : Word.BodyAsks Query.isStill body) :
    (executeBody e name call body).Keeps G fun _ => True := by
  unfold executeBody
  cases body with
  | nil => exact .pure ⟨⟩
  | cons entry rest =>
    refine ((keeps_noteDispatch hG entry.1 entry.2).bind fun _ _ =>
      (keeps_execute entry.1 hbody.1).call).call.attempt.bind fun outcome _ => ?_
    cases outcome with
    | ok => exact keeps_executeBody name call rest hbody.2
    | error f =>
      simp only
      split
      · exact .throw
      · exact .throw
end

theorem keeps_dispatch {w : Word} (hw : w.Asks Query.isStill) (l : Option Location) :
    (dispatch e w l).Keeps G fun _ => True :=
  (keeps_noteDispatch hG w l).bind fun _ _ => (keeps_execute hG w hw).call

omit hG

/-- Still words alter nothing. -/
theorem of_still {w : Word} {l : Option Location} {j : Interp} {t : Store}
    (hw : w.Asks Query.isStill) (h : (dispatch e w l).finish i s = .ended (.ok ()) j t) :
    Unaltered i s j t := by
  obtain ⟨-, ⟨hscope, hstate⟩, hmodules⟩ :=
    (keeps_dispatch (still_guard i s) hw l).of_ok ⟨rfl, rfl⟩ rfl h
  exact ⟨hmodules, hscope, hstate⟩

end Unaltered

end Wordstack
