import Wordstack.Proofs.Runs.CallChain
import Wordstack.Proofs.Runs.DefinedWord
import Wordstack.Proofs.Runs.NativeWords
import Wordstack.Vocabulary.Core

/-!
# Where faults are located

The interpreter notes where it dispatches a word and takes nothing back when the word is done. So the
fault of a word's own code is located at the word only as long as the code, or the word behind a memo
word, has not dispatched others: otherwise it is located where the last of those has left the
interpreter.

- **Places** (`callAfter`, `Native.places`, `tryHandlers.places`): where code leaves the interpreter.
- **Own faults** (`Native.Fails`, `Word.OwnFault`): too few values, and errors that are not the
  engine's.
- **Locations** (`Word.OwnFault.call_eq`, `own_fault_is_located_at_latest_call`).
-/

namespace Wordstack

/-! ## Places -/

/-- Where an interpreter stands that stood at `call` and came to some places in order. -/
def callAfter (call : Option Location) (places : List (Option Location)) : Option Location :=
  places.getLast?.getD call

/-- Whether answering a query may dispatch words. -/
def Query.dispatches : Query → Bool
  | .run _ | .attempt _ | .useModules _ | .useRemote .. => true
  | _ => false

/-- The place to which a query has brought the interpreter that answered it. -/
def Query.place (q : Query) (i : Interp) : List (Option Location) :=
  if q.dispatches then [i.call] else []

/-- The places to which native code brings the interpreter, one for each query that may dispatch
words. -/
def Native.places {α : Type} (e : Nested) : Native α → Interp → Store → List (Option Location)
  | .done _, _, _ | .fail _, _, _ => []
  | .ask q next, i, s =>
    match (answer e q).finish i s with
    | .ended (.ok r) j t => q.place j ++ (next r).places e j t
    | .ended (.fault _) j _ => q.place j
    | _ => []

/-- The places to which handlers bring the interpreter that decline a fault. -/
def tryHandlers.places (e : Nested) (name : String) (f : Fault) :
    List Handler → Interp → Store → List (Option Location)
  | [], _, _ => []
  | h :: rest, i, s =>
    (h f).places e i s ++
      match (perform e (h f)).finish i s with
      | .ended (.fault g) j t => places e name f rest j
          (t.log .debug "word" ("error handler for " ++ name ++ " declined: " ++ g.message))
      | _ => []

theorem callAfter_append {call : Option Location} {xs ys : List (Option Location)} :
    callAfter call (xs ++ ys) = callAfter (callAfter call xs) ys := by
  unfold callAfter
  rw [List.getLast?_append]
  cases ys.getLast? <;> rfl

theorem callAfter_eq_iff {call : Option Location} {places : List (Option Location)} :
    callAfter call places = call ↔ ∀ place ∈ places.getLast?, place = call := by
  unfold callAfter
  cases places.getLast? with
  | none => simp
  | some place => simp

section Places

variable {e : Nested} {i j : Interp} {s t : Store} {f : Fault}

/-- What holds as long as an interpreter stands at a place. -/
def Guard.at (call : Option Location) : Guard where
  interp i := i.call = call
  store _ := True

theorem Query.keeps_call {q : Query} (hq : q.dispatches = false) (call : Option Location) :
    (answer e q).Keeps (.at call) fun _ => True := by
  have hcurrent : ∀ operation, (Task.current operation).Keeps (.at call) fun _ => True := by
    refine fun operation => ⟨fun hi hs => ?_⟩
    unfold Task.current
    split
    · exact .ok ⟨⟩ hi hs
    · exact .fault hi hs
  have hfresh : (Task.ofStore Store.freshId).Keeps (.at call) fun _ => True :=
    .ofStore fun _ => ⟨⟨⟩, ⟨⟩⟩
  cases q with
  | pop =>
    refine ⟨fun hi hs => ?_⟩
    simp only [answer, Task.pop]
    split
    · exact .ok ⟨⟩ hi hs
    · exact .fault hi hs
  | peek =>
    refine ⟨fun hi hs => ?_⟩
    simp only [answer]
    split
    · exact .ok ⟨⟩ hi hs
    · exact .fault hi hs
  | popN n =>
    refine ⟨fun hi hs => ?_⟩
    simp only [answer, Task.popN]
    split
    · exact .ok ⟨⟩ hi hs
    · exact .fault hi hs
  | findWord name =>
    refine (Task.Keeps.look _).bind fun found _ => ?_
    refine (Task.Keeps.lift fun _ _ => ⟨⟩).bind fun w (_ : True) => ?_
    split
    · exact .pure ⟨⟩
    · exact hfresh.bind fun _ _ => .pure ⟨⟩
  | findModule name =>
    refine (Task.Keeps.look _).bind fun i _ => ?_
    refine (Task.Keeps.lift fun _ _ => ⟨⟩).bind fun m (_ : True) => ?_
    exact (Task.Keeps.look _).bind fun _ _ => .pure ⟨⟩
  | variableNamed name =>
    refine (hcurrent _).bind fun m _ => ?_
    refine .bind (P := fun _ => True) ?_ fun _ _ => .pure ⟨⟩
    exact .ofStore fun _ => ⟨⟨⟩, ⟨⟩⟩
  | exportNames names => exact (hcurrent _).bind fun m _ => .updateStore fun _ => ⟨⟩
  | requireScope operation => exact (hcurrent _).bind fun _ _ => .pure ⟨⟩
  | store cell v => exact .updateStore fun _ => ⟨⟩
  | stamp label =>
    exact .bind (P := fun _ => True) (.ofStore fun _ => ⟨⟨⟩, ⟨⟩⟩) fun _ _ => .update fun h => h
  | print line => exact .updateStore fun _ => ⟨⟩
  | fresh => exact hfresh
  | turn => exact .turn
  | never => exact (Task.Keeps.wait _).bind fun _ _ => .pure ⟨⟩
  | connect pool name address => exact ⟨fun hi _ => .ok ⟨⟩ hi ⟨⟩⟩
  | disconnect pool name => exact ⟨fun hi _ => .ok ⟨⟩ hi ⟨⟩⟩
  | push _ | setStack _ | startProfile | stopProfile => exact .update fun h => h
  | top | stack | callLocation | topInput | fetch _ | profile | connections _ => exact .look _
  | run | attempt | useModules | useRemote => cases hq

theorem call_of_answer {q : Query} {r : Result q.Reply}
    (h : (answer e q).finish i s = .ended r j t) (hr : r ≠ .exhausted) :
    j.call = callAfter i.call (q.place j) := by
  unfold Query.place
  split
  · rfl
  · rename_i hq
    have hkept : ((answer e q).finish i s).Kept (.at i.call) fun _ => True :=
      (Query.keeps_call (Bool.eq_false_iff.mpr hq) i.call).finish rfl ⟨⟩
    rw [h] at hkept
    cases hkept with
    | ok _ hj _ => exact hj
    | fault hj _ => exact hj
    | exhausted => exact absurd rfl hr

/-- Code that dispatches nothing brings the interpreter nowhere. -/
theorem Native.places_eq_nil {α : Type} {x : Native α} (hx : x.Asks fun q => !q.dispatches) :
    x.places e i s = [] := by
  induction x generalizing i s with
  | done a => rfl
  | fail g => rfl
  | ask q next ih =>
    obtain ⟨hq, hnext⟩ := hx
    have hplace : ∀ j, q.place j = [] := fun j => if_neg (by simpa using hq)
    unfold Native.places
    split
    · rw [hplace, ih _ (hnext _)]
      rfl
    · exact hplace _
    · rfl

theorem Native.places_of_reply {α : Type} {q : Query} {next : q.Reply → Native α} {r : q.Reply}
    (h : (answer e q).finish i s = .ended (.ok r) j t) :
    (Native.ask q next).places e i s = q.place j ++ (next r).places e j t := by
  rw [places, h]

theorem Native.places_of_fault {α : Type} {q : Query} {next : q.Reply → Native α}
    (h : (answer e q).finish i s = .ended (.fault f) j t) :
    (Native.ask q next).places e i s = q.place j := by
  rw [places, h]

/-- Code that fails leaves the interpreter at the last of its places, by induction on the code. -/
theorem call_of_perform {α : Type} {x : Native α}
    (h : (perform e x).finish i s = .ended (.fault f) j t) :
    j.call = callAfter i.call (x.places e i s) := by
  induction x generalizing i s with
  | done a => cases h
  | fail g =>
    cases h
    rfl
  | ask q next ih =>
    rw [finish_perform_ask] at h
    unfold Native.places
    cases hq : (answer e q).finish i s with
    | hung u =>
      rw [hq] at h
      cases h
    | ended r k u =>
      rw [hq] at h
      cases r with
      | exhausted => cases h
      | fault g =>
        cases h
        exact call_of_answer hq Result.fault_ne_exhausted
      | ok r =>
        rw [ih r h, callAfter_append, ← call_of_answer hq Result.ok_ne_exhausted]

/-- Handlers that decline leave the interpreter at the last of their places. -/
theorem Tried.call_eq {name : String} {hs : List Handler} {x : Outcome Bool}
    (h : Tried e name f hs i s x) (hx : x = .ended (.ok false) j t) :
    j.call = callAfter i.call (tryHandlers.places e name f hs i s) := by
  induction h with
  | none =>
    cases hx
    rfl
  | declined hh _ ih =>
    unfold tryHandlers.places
    rw [hh, callAfter_append, ← call_of_perform hh]
    exact ih hx
  | _ => cases hx

end Places

/-! ## Own faults -/

/-- Whether a fault is an error that neither the engine nor a stop has raised. -/
def Fault.isForeign (f : Fault) : Bool := !f.isEngine && !f.isStop

/-- Whether a query takes values from the stack or looks at them. -/
def Query.takes : Query → Bool
  | .pop | .peek | .popN _ => true
  | _ => false

/-- Native code fails itself: it asks for values that are not there, or an error comes up that is not
the engine's. -/
inductive Native.Fails {α : Type} (e : Nested) (f : Fault) (k : Interp) (u : Store) :
    Native α → Interp → Store → Prop
  | raised (hf : f.isForeign = true) : Fails e f k u (.fail f) k u
  | short {q : Query} {next : q.Reply → Native α} {i : Interp} {s : Store} (hq : q.takes = true)
      (h : (answer e q).finish i s = .ended (.fault f) k u) : Fails e f k u (.ask q next) i s
  | foreign {q : Query} {next : q.Reply → Native α} {i : Interp} {s : Store}
      (hf : f.isForeign = true) (h : (answer e q).finish i s = .ended (.fault f) k u) :
      Fails e f k u (.ask q next) i s
  | reply {q : Query} {next : q.Reply → Native α} {r : q.Reply} {i j : Interp} {s t : Store}
      (h : (answer e q).finish i s = .ended (.ok r) j t) (hrest : Fails e f k u (next r) j t) :
      Fails e f k u (.ask q next) i s

/-- A word fails itself: there are too few inputs, its code fails itself, or the word behind a memo
word is done and has left no value. The list has the places to which it has brought the
interpreter. -/
inductive Word.OwnFault (e : Nested) (i : Interp) (s : Store) :
    Word → List (Option Location) → Fault → Interp → Store → Prop
  | short {label : WordLabel} {n : Nat} {hasOptions waits : Bool}
      {code : List Val → Options → Native (Option Val)} {hs : List Handler}
      (h : (i.stack.splitOptions hasOptions).2.depth < n) :
      OwnFault e i s (.native label n hasOptions waits code hs) [] i.underflow
        { i with stack := (i.stack.splitOptions hasOptions).2 } s
  | native {label : WordLabel} {hasOptions waits : Bool}
      {code : List Val → Options → Native (Option Val)} {hs : List Handler}
      {below inputs : List Val} {options : Options} {f : Fault} {j : Interp} {t : Store}
      (hstack : i.stack.splitOptions hasOptions = (options, .ofList (below ++ inputs)))
      (h : (code inputs options).Fails e f j t { i with stack := .ofList below } s) :
      OwnFault e i s (.native label inputs.length hasOptions waits code hs)
        ((code inputs options).places e { i with stack := .ofList below } s) f j t
  | direct {label : WordLabel} {waits : Bool} {code : Native Unit} {hs : List Handler} {f : Fault}
      {j : Interp} {t : Store} (h : code.Fails e f j t i s) :
      OwnFault e i s (.direct label waits code hs) (code.places e i s) f j t
  | memo (use : MemoUse) {label : WordLabel} {cell : Nat} {w : Word} {j : Interp} {t : Store}
      (hfresh : use.IsFresh (s.memo cell)) (hidle : (s.memo cell).current = none)
      (h : (execute e w).finish i (s.beginMemo cell) = .ended (.ok ()) j t)
      (hempty : j.stack.pop? = none) :
      OwnFault e i s (use.word label cell w) [j.call] j.underflow j
        (t.conclude cell (.error j.underflow))

section OwnFaults

variable {e : Nested} {i j k : Interp} {s t u : Store} {f : Fault}

theorem Fault.isForeign_iff : f.isForeign = true ↔ f.isEngine = false ∧ f.isStop = false := by
  simp [Fault.isForeign]

theorem Query.fault_of_takes {q : Query} (hq : q.takes = true)
    (h : (answer e q).finish i s = .ended (.fault f) j t) : f = j.underflow := by
  cases q with
  | pop =>
    unfold Task.finish at h
    simp only [answer, Task.pop] at h
    split at h <;> cases h
    rfl
  | peek =>
    unfold Task.finish at h
    simp only [answer] at h
    split at h <;> cases h
    rfl
  | popN n =>
    unfold Task.finish at h
    simp only [answer, Task.popN] at h
    split at h <;> cases h
    rfl
  | _ => cases hq

namespace Native.Fails

variable {α : Type} {x : Native α}

theorem finish_perform (h : x.Fails e f k u i s) :
    (perform e x).finish i s = .ended (.fault f) k u := by
  induction h with
  | raised => rfl
  | short _ h | foreign _ h =>
    rw [finish_perform_ask, h]
    rfl
  | reply h _ ih =>
    rw [finish_perform_ask, h]
    exact ih

theorem fault_eq (h : x.Fails e f k u i s) : f = k.underflow ∨ f.isForeign = true := by
  induction h with
  | raised hf => exact .inr hf
  | short hq h => exact .inl (Query.fault_of_takes hq h)
  | foreign hf => exact .inr hf
  | reply _ _ ih => exact ih

/-- An error that is not the engine's is always one of the code that ends with it. -/
theorem of_foreign (hf : f.isForeign = true)
    (h : (perform e x).finish i s = .ended (.fault f) k u) : x.Fails e f k u i s := by
  induction x generalizing i s with
  | done a => cases h
  | fail g =>
    cases h
    exact .raised hf
  | ask q next ih =>
    rw [finish_perform_ask] at h
    cases hq : (answer e q).finish i s with
    | hung v =>
      rw [hq] at h
      cases h
    | ended r j t =>
      rw [hq] at h
      cases r with
      | exhausted => cases h
      | fault g =>
        cases h
        exact .foreign hf hq
      | ok r => exact .reply hq (ih r h)

end Native.Fails

/-- Where all handlers decline, the fault of a word is located where the last one of them leaves
off. -/
theorem finish_recover_declined {label : WordLabel} {hs : List Handler} (hstop : f.isStop = false)
    (h : (tryHandlers e label.name f hs).finish i s = .ended (.ok false) j t) :
    (recover e label hs f).finish i s = .ended (.fault (label.wrapped j.call f)) j t := by
  unfold recover WordLabel.wrapped
  rw [hstop, if_neg Bool.false_ne_true, Task.finish_bind, Task.finish_call, h, Outcome.bind_ok,
    if_neg Bool.false_ne_true]
  cases f.isEngine with
  | true => rfl
  | false => rfl

namespace Word.OwnFault

variable {w : Word} {places : List (Option Location)}

theorem call_eq (h : w.OwnFault e i s places f j t) : j.call = callAfter i.call places := by
  cases h with
  | short => rfl
  | native _ h => exact call_of_perform h.finish_perform
  | direct h => exact call_of_perform h.finish_perform
  | memo => rfl

theorem fault_eq (h : w.OwnFault e i s places f j t) : f = j.underflow ∨ f.isForeign = true := by
  cases h with
  | short => exact .inl rfl
  | native _ h => exact h.fault_eq
  | direct h => exact h.fault_eq
  | memo => exact .inl rfl

theorem isStop_eq (h : w.OwnFault e i s places f j t) : f.isStop = false := by
  obtain rfl | hf := h.fault_eq
  · rfl
  · exact (Fault.isForeign_iff.mp hf).2

/-- The handlers of the word see to its own fault. -/
theorem finish_execute (h : w.OwnFault e i s places f j t) :
    (execute e w).finish i s = (recover e w.label w.handlers f).finish j t := by
  cases h with
  | short h =>
    rw [execute, finish_guarded, finish_callNative_short h]
    exact Task.finish_call ..
  | native hstack h =>
    rw [execute, finish_guarded, finish_callNative_supplied rfl hstack, h.finish_perform]
    exact Task.finish_call ..
  | direct h =>
    rw [execute, finish_guarded, Task.finish_callCode, h.finish_perform]
    exact Task.finish_call ..
  | memo use hfresh hidle h hempty =>
    rw [finish_memoUse_begun hfresh hidle, h, Outcome.concluded, Result.outcome?, hempty]
    cases use <;> exact (finish_recover_engine rfl rfl).symm

/-- When all handlers decline, the word fails with its own fault, which names the word if it is not
the engine's. -/
theorem fails (h : w.OwnFault e i s places f j t)
    (hdeclined : (tryHandlers e w.name f w.handlers).finish j t = .ended (.ok false) k u) :
    (execute e w).finish i s = .ended (.fault (w.label.wrapped k.call f)) k u ∧
      k.call = callAfter i.call (places ++ tryHandlers.places e w.name f w.handlers j t) := by
  have htried : Tried e w.name f w.handlers j t (.ended (.ok false) k u) :=
    hdeclined ▸ tried_tryHandlers
  constructor
  · rw [h.finish_execute]
    exact finish_recover_declined h.isStop_eq hdeclined
  · rw [callAfter_append, ← h.call_eq]
    exact htried.call_eq rfl

end Word.OwnFault

end OwnFaults

/-! ## Locations -/

/-- Where the fault of a word's own code is located. A run executes the word of a token, the word
fails itself, and its handlers decline. Then reading stops with the word's fault, and the run ends
with it if there is no handler. The fault is located at the last place to which the word, and for an
error that is wrapped also its handlers, have brought the interpreter. That is the token if they have
dispatched nothing. -/
theorem own_fault_is_located_at_latest_call {depth : Nat} {source : String} {origin : Location}
    {i j k l : Interp} {s t u v : Store} {tk : Token} {w : Word} {places : List (Option Location)}
    {f : Fault} (hrun : Task.Executes (nested depth) source origin i s tk w k u)
    (hown : w.OwnFault (nested depth) k u places f j t)
    (hdeclined : (tryHandlers (nested depth) w.name f w.handlers).finish j t =
      .ended (.ok false) l v) :
    let more := tryHandlers.places (nested depth) w.name f w.handlers j t
    let brought := if f.isForeign then places ++ more else places
    let call := callAfter (some tk.location) brought
    ∃ g, (g = .stackUnderflow j.topInput call ∧ f = g ∨
        g = .nativeWord w.name (w.label.home.getD "") f.message (some f) call ∧
          f.isForeign = true) ∧
      (g.location? = some tk.location ↔ ∀ place ∈ brought.getLast?, place = some tk.location) ∧
      ∃ i₀ s₀ sc, Task.Begins (nested depth) i s i₀ s₀ ∧
        (runAllTokens (nested depth) (Scanner.start source origin)).finish
            (i₀.beginRun (Scanner.start source origin).input) s₀ = .ended (.ok (some (g, sc))) l v ∧
        (i.recovery = none → ∃ l, (runSource (nested depth) source origin).finish i s =
          .ended (.fault g) l v) := by
  intro more brought call
  have hplace : k.call = some tk.location := by
    cases hrun
    rfl
  obtain ⟨hw, hlast⟩ := hown.fails hdeclined
  have hfault : w.label.wrapped l.call f = .stackUnderflow j.topInput call ∧
        f = w.label.wrapped l.call f ∨
      w.label.wrapped l.call f =
        .nativeWord w.name (w.label.home.getD "") f.message (some f) call ∧ f.isForeign = true := by
    obtain hf | hforeign := hown.fault_eq
    · have hbrought : brought = places := if_neg (by rw [hf]; exact Bool.false_ne_true)
      have hcall : j.call = call := by rw [hown.call_eq, hplace, ← hbrought]
      rw [WordLabel.wrapped_eq (.inr (by rw [hf]; rfl)), hf, Interp.underflow, hcall]
      exact .inl ⟨rfl, rfl⟩
    · obtain ⟨hengine, hstop⟩ := Fault.isForeign_iff.mp hforeign
      have hbrought : brought = places ++ more := if_pos hforeign
      have hcall : l.call = call := by rw [hlast, hplace, ← hbrought]
      refine .inr ⟨?_, hforeign⟩
      rw [hcall, WordLabel.wrapped, hengine, hstop]
      rfl
  obtain ⟨k₀, hcomes, htoken⟩ := hrun.comes hw
  obtain ⟨i₀, s₀, sc, hb, hstops⟩ := hcomes.stops htoken
  refine ⟨_, hfault, ?_, i₀, s₀, sc, hb, hstops, hcomes.fails htoken⟩
  have hlocation : (w.label.wrapped l.call f).location? = call := by
    obtain ⟨hg, -⟩ | ⟨hg, -⟩ := hfault
    · rw [hg]
      rfl
    · rw [hg]
      rfl
  rw [hlocation]
  exact callAfter_eq_iff

/-! ## A fixed source -/

/-- The word of a declaration that takes some inputs and no options. -/
def NativeSpec.taking (spec : NativeSpec) (inputs : Nat) : Word :=
  .native { name := spec.name, home := some coreName } inputs false spec.waits spec.code
    spec.handlers

/-- Core's words `POP`, `NULL` and `*DEFAULT`. -/
def defaultWords : List Word :=
  [Core.natives[0].taking 1, Core.natives[11].taking 0, Core.natives[14].taking 2]

/-- A source that computes a default with a source that leaves no value. -/
def defaultText : String := "NULL \"1 POP\" *DEFAULT"

/-- The last token of that source. -/
def defaultToken : Token := ⟨.word, "*DEFAULT", ⟨none, 1, 14, 13, 21⟩⟩

/-- The interpreter that comes to it. -/
def Interp.defaulting : Interp :=
  { Interp.readingInts.beginRun defaultText with
    stack := .ofList [.null, .str "1 POP"]
    call := some ⟨none, 1, 6, 5, 10⟩
    previous := some ⟨none, 1, 6, 5, 10⟩ }

theorem executes_default :
    let w := Core.natives[14].taking 2
    Task.Executes (nested 1) defaultText .origin .readingInts (.holding defaultWords) defaultToken w
      (Interp.defaulting.dispatching w (some defaultToken.location)) (.holding defaultWords) := by
  intro w
  have htokens : tokenize defaultText .origin = .ok ([⟨.word, "NULL", ⟨none, 1, 1, 0, 4⟩⟩,
    ⟨.str, "1 POP", ⟨none, 1, 6, 5, 10⟩⟩] ++ [defaultToken]) := by rfl
  obtain ⟨eos, hscans⟩ := tokenize_eq_ok_iff.mp htokens
  have hcomes : Task.ComesTo (nested 1) defaultText .origin .readingInts (.holding defaultWords)
      defaultToken Interp.defaulting (.holding defaultWords) :=
    .intro (.outermost rfl rfl) hscans rfl
  exact .intro hcomes rfl rfl

/-- The word runs its source to the end, and fails itself at the last token of that. -/
theorem ownFault_default :
    let w := Core.natives[14].taking 2
    ∃ j t, w.OwnFault (nested 1) (Interp.defaulting.dispatching w (some defaultToken.location))
      (.holding defaultWords) [some ⟨none, 1, 3, 2, 5⟩] j.underflow j t := by
  intro w
  let i := { Interp.defaulting.dispatching w (some defaultToken.location) with stack := .ofList [] }
  have hcheck : ((runSource (nested 0) "1 POP" .origin).finish i (.holding defaultWords)).isOk
      (fun j _ => j.stack.depth == 0 && j.call == some ⟨none, 1, 3, 2, 5⟩) = true := by
    decide +kernel
  obtain ⟨j, t, hx, hj⟩ := Outcome.exists_of_isOk hcheck
  obtain ⟨hdepth, hcall⟩ := Bool.and_eq_true_iff.mp hj
  have hrun : (answer (nested 1) (.run "1 POP")).finish i (.holding defaultWords) =
      .ended (.ok ()) j t := (Task.finish_call ..).trans hx
  have hpop : (answer (nested 1) .pop).finish j t = .ended (.fault j.underflow) j t := by
    have hempty : j.stack.pop? = none := by
      unfold OperandStack.pop?
      rw [List.length_eq_zero_iff.mp (beq_iff_eq.mp hdepth)]
    unfold Task.finish
    simp only [answer, Task.pop, hempty]
    rfl
  have hstack : (Interp.defaulting.dispatching w (some defaultToken.location)).stack.splitOptions
      false = (.empty, .ofList ([] ++ [.null, .str "1 POP"])) := rfl
  have hfails : (Core.natives[14].code [.null, .str "1 POP"] .empty).Fails (nested 1) j.underflow
      j t i (.holding defaultWords) := .reply hrun (.short rfl hpop)
  have hplaces : (Core.natives[14].code [.null, .str "1 POP"] .empty).places (nested 1) i
      (.holding defaultWords) = [some ⟨none, 1, 3, 2, 5⟩] := by
    refine (Native.places_of_reply hrun).trans ?_
    refine (congrArg (_ ++ ·) (Native.places_of_fault hpop)).trans ?_
    rw [← beq_iff_eq.mp hcall]
    rfl
  refine ⟨j, t, ?_⟩
  rw [← hplaces]
  exact .native hstack hfails

theorem own_fault_is_located_at_latest_call_default : ∃ (g : Fault) (l : Interp) (v : Store),
    g.location? = some ⟨none, 1, 3, 2, 5⟩ ∧
    (runSource (nested 1) defaultText .origin).finish .readingInts (.holding defaultWords) =
      .ended (.fault g) l v := by
  obtain ⟨j, t, hown⟩ := ownFault_default
  obtain ⟨g, hg, -, i₀, s₀, sc, -, -, hfails⟩ :=
    own_fault_is_located_at_latest_call executes_default hown rfl
  obtain ⟨l, hends⟩ := hfails rfl
  obtain ⟨hg, -⟩ | ⟨-, hforeign⟩ := hg
  · refine ⟨g, l, t, ?_, hends⟩
    rw [hg]
    rfl
  · cases hforeign

/-- The fault of a word's own code is located at a token of the source that the word has run, and not
at the word. -/
theorem own_fault_may_be_located_elsewhere :
    ∃ (w : Word) (k j l : Interp) (u t v : Store) (places : List (Option Location)) (f : Fault),
      Task.Executes (nested 1) defaultText .origin .readingInts (.holding defaultWords) defaultToken
        w k u ∧
      w.OwnFault (nested 1) k u places f j t ∧ w.handlers = [] ∧
      (runSource (nested 1) defaultText .origin).finish .readingInts (.holding defaultWords) =
        .ended (.fault f) l v ∧
      f.location? ≠ some defaultToken.location := by
  obtain ⟨j, t, hown⟩ := ownFault_default
  obtain ⟨hw, hcall⟩ := hown.fails rfl
  obtain ⟨k₀, hcomes, htoken⟩ := executes_default.comes hw
  obtain ⟨l, hends⟩ := hcomes.fails htoken rfl
  refine ⟨_, _, j, l, _, t, t, _, _, executes_default, hown, rfl, hends, fun h => ?_⟩
  have hplace : j.underflow.location? = some ⟨none, 1, 3, 2, 5⟩ := hown.call_eq
  rw [hplace] at h
  cases h

end Wordstack
