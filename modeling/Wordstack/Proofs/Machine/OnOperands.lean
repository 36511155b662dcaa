import Wordstack.Proofs.Machine.CoupledStacks
import Wordstack.Proofs.Vocabulary.Uniform

/-!
# Words on operands

Words of literals, array brackets and native code that depends on, and changes, nothing but its
arguments, its options and the stack.

- **Values** (`Val.Issued`): identities in them have been given out.
- **Code** (`Query.isOnOperands`) and **words** (`Word.OnOperands`).
- **The core vocabulary** (`Core.onOperandsAnd`): which of its words with inputs are on operands.
- **Ends** (`Task.Completes`): such words never hang, and run no source that could be nested too
  deeply.
- **Two sides** (`Coupling.Answers.execute`): they end in the same way wherever the stacks are the
  same but for identities.
-/

namespace Wordstack

/-! ## Values -/

mutual
/-- The identities of words and of options in the value have been given out. -/
def Val.Issued (issued : Nat) : Val → Prop
  | .array items => AllIssued issued items
  | .record fields => FieldsIssued issued fields
  | .wordRef r => r.id < issued
  | .options id entries => id < issued ∧ FieldsIssued issued entries
  | .int _ | .float _ | .bool _ | .str _ | .null | .instant _ | .plainDate _ | .zoned _ _
  | .moduleRef _ | .variableRef _ => True

/-- `Val.Issued` of every value. -/
def Val.AllIssued (issued : Nat) : List Val → Prop
  | [] => True
  | v :: vs => Issued issued v ∧ AllIssued issued vs

/-- `Val.Issued` of the values of fields. -/
def Val.FieldsIssued (issued : Nat) : List (String × Val) → Prop
  | [] => True
  | (_, v) :: rest => Issued issued v ∧ FieldsIssued issued rest
end

section Values

variable {P : Pairing} {issued : Nat}

mutual
/-- A value is the same for everybody to whom identities that have been given out are. -/
theorem Val.Issued.paired (hmodule : ∀ m, P.module m m) (hcell : ∀ c, P.cell c c)
    (hid : ∀ id < issued, P.id id id) : ∀ {v : Val}, v.Issued issued → v.Paired P v
  | .int n, _ => .int n
  | .float x, _ => .float x
  | .bool b, _ => .bool b
  | .str s, _ => .str s
  | .null, _ => .null
  | .instant iso, _ => .instant iso
  | .plainDate iso, _ => .plainDate iso
  | .zoned iso zone, _ => .zoned iso zone
  | .moduleRef r, _ => .moduleRef r.name (hmodule r.id)
  | .variableRef r, _ => .variableRef r.name (hcell r.id)
  | .wordRef r, h => by
    rw [Val.Issued] at h
    exact .wordRef r.name (hid r.id h)
  | .array _, h => by
    rw [Val.Issued] at h
    exact .array (Val.AllIssued.paired hmodule hcell hid h)
  | .record _, h => by
    rw [Val.Issued] at h
    exact .record (Val.FieldsIssued.paired hmodule hcell hid h)
  | .options id _, h => by
    rw [Val.Issued] at h
    exact .options (hid id h.1) (Val.FieldsIssued.paired hmodule hcell hid h.2)

@[inherit_doc Val.Issued.paired]
theorem Val.AllIssued.paired (hmodule : ∀ m, P.module m m) (hcell : ∀ c, P.cell c c)
    (hid : ∀ id < issued, P.id id id) :
    ∀ {vs : List Val}, Val.AllIssued issued vs → Val.AllPaired P vs vs
  | [], _ => .nil
  | _ :: _, h => by
    rw [Val.AllIssued] at h
    exact .cons (Val.Issued.paired hmodule hcell hid h.1)
      (Val.AllIssued.paired hmodule hcell hid h.2)

@[inherit_doc Val.Issued.paired]
theorem Val.FieldsIssued.paired (hmodule : ∀ m, P.module m m) (hcell : ∀ c, P.cell c c)
    (hid : ∀ id < issued, P.id id id) : ∀ {fields : List (String × Val)},
    Val.FieldsIssued issued fields → Val.EntriesPaired P fields fields
  | [], _ => .nil
  | (key, _) :: _, h => by
    rw [Val.FieldsIssued] at h
    exact .cons (.mk key (Val.Issued.paired hmodule hcell hid h.1))
      (Val.FieldsIssued.paired hmodule hcell hid h.2)
end

end Values

/-! ## Words -/

/-- Whether a query is answered by the stack alone, or by a new identity for options. Code can also
ask where its word is called, say something on the console, and let others have their turn. -/
def Query.isOnOperands : Query → Bool
  | .fresh => true
  | .never => false
  | q => q.isOnStack

theorem Query.isOnStack_or_fresh {q : Query} (h : q.isOnOperands = true) :
    q.isOnStack = true ∨ q = .fresh := by
  cases q with
  | fresh => exact .inr rfl
  | never => cases h
  | _ => exact .inl h

/-- Code that depends on, and changes, the stack only. -/
def Native.OnOperands (x : Native Unit) : Prop := x.Uniform ∧ x.Asks Query.isOnOperands

/-- Code that depends on its arguments, its options and the stack only, and changes the stack
only. -/
def Native.OnOperandsAnd (code : List Val → Options → Native (Option Val)) : Prop :=
  Native.UniformOn code ∧ ∀ args options, (code args options).Asks Query.isOnOperands

/-- A handler that depends on its fault and on the stack only, and changes the stack only. -/
def Handler.OnOperands (h : Handler) : Prop := Handler.Uniform h ∧ Handler.Asks Query.isOnOperands h

mutual
/-- Words that consist of literals, array brackets and code on operands, directly or through the
definitions that they call. -/
def Word.OnOperands (issued : Nat) : Word → Prop
  | .constant _ v => v.Issued issued
  | .definition _ body => Word.BodyOnOperands issued body
  | .native _ _ _ _ code handlers => Native.OnOperandsAnd code ∧ ∀ h ∈ handlers, h.OnOperands
  | .direct _ _ code handlers => code.OnOperands ∧ ∀ h ∈ handlers, h.OnOperands
  | .openArray | .closeArray => True
  | .memo .. | .memoRefresh .. | .memoReload .. | .openModule _ | .closeModule | .remote .. => False

/-- `Word.OnOperands` of every entry. -/
def Word.BodyOnOperands (issued : Nat) : List (Word × Location) → Prop
  | [] => True
  | (w, _) :: rest => Word.OnOperands issued w ∧ Word.BodyOnOperands issued rest
end

/-! ## The core vocabulary -/

namespace Native

variable {α β : Type} {p : Query → Bool}

theorem Asks.bind {x : Native α} {f : α → Native β} (hx : x.Asks p) (hf : ∀ a, (f a).Asks p) :
    (x >>= f).Asks p := by
  induction x with
  | done a => exact hf a
  | fail _ => trivial
  | ask q next ih => exact ⟨hx.1, fun r => ih r (hx.2 r)⟩

theorem asks_one {f : Val → Native (Option Val)} (h : ∀ v, (f v).Asks p) (args : List Val)
    (options : Options) :
    ((fun
      | [v], _ => f v
      | _, _ => pure none : List Val → Options → Native (Option Val)) args options).Asks p := by
  match args with
  | [v] => exact h v
  | [] | _ :: _ :: _ => trivial

theorem asks_two {f : Val → Val → Native (Option Val)} (h : ∀ v w, (f v w).Asks p)
    (args : List Val) (options : Options) :
    ((fun
      | [v, w], _ => f v w
      | _, _ => pure none : List Val → Options → Native (Option Val)) args options).Asks p := by
  match args with
  | [v, w] => exact h v w
  | [] | [_] | _ :: _ :: _ :: _ => trivial

end Native

namespace Core

open Native (items)

/-- The words with inputs that look at their operands and leave operands. -/
def operandWords : List String :=
  ["POP", "DUP", "SWAP", "IDENTITY", "NOP", "NULL", "ARRAY?", "DEFAULT", "~>"]

theorem asks_items {p : Query → Bool} (what : String) (v : Val) : (items what v).Asks p := by
  cases v <;> trivial

theorem onOperandsAnd {spec : NativeSpec} (hs : spec ∈ natives) (hname : spec.name ∈ operandWords) :
    Native.OnOperandsAnd spec.code := by
  refine ⟨natives_uniform spec hs, ?_⟩
  simp only [natives, List.mem_cons, List.not_mem_nil, or_false] at hs
  rcases hs with rfl | rfl | rfl | rfl | rfl | rfl | rfl | rfl | rfl | rfl | rfl | rfl | rfl |
    rfl | rfl | rfl | rfl | rfl | rfl | rfl
  all_goals try exact absurd hname (by decide)
  · exact fun _ _ => trivial
  · exact Native.asks_one fun _ => ⟨rfl, fun _ => trivial⟩
  · exact Native.asks_two fun _ _ => ⟨rfl, fun _ => trivial⟩
  · exact fun _ _ => trivial
  · exact fun _ _ => trivial
  · exact fun _ _ => trivial
  · intro args _
    dsimp only
    split
    · trivial
    · trivial
  · exact Native.asks_two fun _ _ => trivial
  · refine Native.asks_one fun v => (asks_items _ v).bind fun vs => ?_
    refine Native.Asks.bind (x := Native.lift (Options.ofFlat vs)) ?_ fun _ =>
      ⟨rfl, fun _ => trivial⟩
    cases Options.ofFlat vs with
    | ok => trivial
    | error => trivial

end Core

/-! ## Ends -/

/-- The task has ended, with a value or with a fault. -/
inductive Outcome.Complete {α : Type} : Outcome α → Prop
  | ok (a : α) (i : Interp) (s : Store) : Complete (.ended (.ok a) i s)
  | fault (f : Fault) (i : Interp) (s : Store) : Complete (.ended (.fault f) i s)

namespace Outcome.Complete

variable {α β : Type} {x : Outcome α}

theorem bind {f : α → Interp → Store → Outcome β} (h : x.Complete)
    (hf : ∀ a i s, (f a i s).Complete) : (x.bind f).Complete := by
  cases h with
  | ok a i s => exact hf a i s
  | fault f i s => exact .fault f i s

theorem attempt (h : x.Complete) : x.attempt.Complete := by
  cases h with
  | ok a i s => exact .ok (Except.ok a) i s
  | fault f i s => exact .ok (Except.error f) i s

end Outcome.Complete

/-- Tasks that end, with a value or with a fault, wherever they are begun. -/
def Task.Completes {α : Type} (x : Task α) : Prop := ∀ i s, (x.finish i s).Complete

namespace Task.Completes

variable {α β : Type} {x : Task α}

theorem pure (a : α) : (Pure.pure a : Task α).Completes := fun i s => .ok a i s

theorem throw (f : Fault) : (Task.throw f : Task α).Completes := fun i s => .fault f i s

theorem view (f : Interp → Store → α) : (Task.view f).Completes := fun i s => .ok (f i s) i s

theorem update (f : Interp → Interp) : (Task.update f).Completes := fun i s => .ok () (f i) s

theorem updateStore (f : Store → Store) : (Task.updateStore f).Completes :=
  fun i s => .ok () i (f s)

theorem bind {f : α → Task β} (h : x.Completes) (hf : ∀ a, (f a).Completes) :
    (x >>= f).Completes := by
  intro i s
  rw [Task.finish_bind]
  exact (h i s).bind hf

theorem attempt (h : x.Completes) : x.attempt.Completes := by
  intro i s
  rw [Task.finish_attempt]
  exact (h i s).attempt

theorem call (h : x.Completes) : x.call.Completes := by
  intro i s
  rw [Task.finish_call]
  exact h i s

theorem callCode (waits : Bool) (h : x.Completes) : (x.callCode waits).Completes := by
  intro i s
  rw [Task.finish_callCode]
  exact h i s

theorem pop : Task.pop.Completes := by
  intro i s
  unfold Task.finish Task.pop
  split
  · exact .ok ..
  · exact .fault ..

theorem popN (n : Nat) : (Task.popN n).Completes := by
  intro i s
  unfold Task.finish Task.popN
  split
  · exact .ok ..
  · exact .fault ..

theorem takeOptions : takeOptions.Completes := by
  intro i s
  unfold Task.finish Wordstack.takeOptions
  split
  · exact .ok ..
  · exact .ok ..

theorem closeArray : closeArray.Completes := by
  unfold Wordstack.closeArray
  refine bind (view _) fun i => ?_
  split
  · exact throw _
  refine bind (update _) fun _ => ?_
  split
  · exact throw _
  · exact update _

/-! ### Native code -/

variable {e : Nested} {issued : Nat} {label : WordLabel} {handlers : List Handler}

theorem answer {q : Query} (h : q.isOnOperands = true) : (answer e q).Completes := by
  cases q with
  | pop => exact pop
  | peek =>
    intro i s
    simp only [Task.finish, Wordstack.answer]
    cases i.stack.top? with
    | some v => exact .ok ..
    | none => exact .fault ..
  | popN n => exact popN n
  | top | stack | callLocation | topInput => exact view _
  | push _ | setStack _ => exact update _
  | print _ => exact updateStore _
  | turn => exact call (pure ())
  | fresh => exact fun i s => .ok s.nextId i _
  | _ => cases h

theorem perform {x : Native α} (h : x.Asks Query.isOnOperands) : (perform e x).Completes := by
  induction x with
  | done a => exact pure a
  | fail f => exact throw f
  | ask q next ih => exact (answer h.1).bind fun r => ih r (h.2 r)

theorem tryHandlers (name : String) (f : Fault) (h : ∀ k ∈ handlers, k.OnOperands) :
    (tryHandlers e name f handlers).Completes := by
  induction handlers with
  | nil => exact pure false
  | cons k rest ih =>
    obtain ⟨hk, hrest⟩ := List.forall_mem_cons.mp h
    unfold Wordstack.tryHandlers
    refine ((perform (hk.2 f)).callCode false).attempt.bind fun outcome => ?_
    cases outcome with
    | ok => exact pure true
    | error f' => exact (updateStore _).bind fun _ => ih hrest

theorem recover (f : Fault) (h : ∀ k ∈ handlers, k.OnOperands) :
    (recover e label handlers f).Completes := by
  unfold Wordstack.recover
  split
  · exact throw f
  refine (tryHandlers label.name f h).call.bind fun handled => ?_
  split
  · exact pure ()
  split
  · exact throw f
  · exact (view _).bind fun _ => throw _

theorem guarded {x : Task Unit} (hx : x.Completes) (h : ∀ k ∈ handlers, k.OnOperands) :
    (guarded e label handlers x).Completes := by
  unfold Wordstack.guarded
  refine hx.attempt.bind fun outcome => ?_
  cases outcome with
  | ok => exact pure ()
  | error f => exact (recover f h).call

theorem callNative (inputs : Nat) (hasOptions waits : Bool)
    {code : List Val → Options → Native (Option Val)} (h : Native.OnOperandsAnd code) :
    (callNative e inputs hasOptions waits code).Completes := by
  have hrest : ∀ options, Task.Completes (do
      let args ← Task.popN inputs
      let result ← Task.callCode waits (Wordstack.perform e (code args options))
      Task.pushSome result) := by
    intro options
    refine (popN inputs).bind fun args => ((perform (h.2 args options)).callCode waits).bind
      fun result => ?_
    cases result with
    | some v => exact update _
    | none => exact pure ()
  unfold Wordstack.callNative
  split
  · exact takeOptions.bind hrest
  · exact hrest .empty

/-! ### Words -/

mutual
theorem execute : ∀ {w : Word}, w.OnOperands issued → (execute e w).Completes
  | .constant _ v, _ => by
    unfold Wordstack.execute
    exact update _
  | .definition label _, h => by
    rw [Word.OnOperands] at h
    unfold Wordstack.execute
    exact (view _).bind fun call => executeBody label.name call h
  | .native _ inputs hasOptions waits _ _, h => by
    rw [Word.OnOperands] at h
    unfold Wordstack.execute
    exact (callNative inputs hasOptions waits h.1).guarded h.2
  | .direct _ waits _ _, h => by
    rw [Word.OnOperands] at h
    unfold Wordstack.execute
    exact ((perform h.1.2).callCode waits).guarded h.2
  | .openArray, _ => by
    unfold Wordstack.execute
    exact update _
  | .closeArray, _ => by
    unfold Wordstack.execute
    exact closeArray
  | .memo .., h | .memoRefresh .., h | .memoReload .., h | .openModule _, h | .closeModule, h
  | .remote .., h => by
    rw [Word.OnOperands] at h
    exact h.elim

theorem executeBody (name : String) (call : Option Location) : ∀ {body : List (Word × Location)},
    Word.BodyOnOperands issued body → (executeBody e name call body).Completes
  | [], _ => by
    unfold Wordstack.executeBody
    exact pure ()
  | _ :: _, h => by
    rw [Word.BodyOnOperands] at h
    unfold Wordstack.executeBody
    refine ((update _).bind fun _ => (execute h.1).call).call.attempt.bind fun outcome => ?_
    cases outcome with
    | ok => exact executeBody name call h.2
    | error f =>
      dsimp only
      split
      · exact throw _
      · exact throw _
end

end Task.Completes

/-! ## Two sides -/

namespace Coupling.Answers

variable {C : Coupling} {P : Pairing} {e : Nested} {issued : Nat}

mutual
/-- Words on operands end in the same way if queries about operands are answered so. -/
theorem execute (hC : C.Answers P e Query.isOnOperands)
    (hself : ∀ {v : Val}, v.Issued issued → v.Paired P v) : ∀ {w : Word}, w.OnOperands issued →
      Task.Coupled C (· = ·) (execute e w) (execute e w)
  | .constant _ _, h => by
    rw [Word.OnOperands] at h
    unfold Wordstack.execute
    exact hC.push (hself h)
  | .definition label _, h => by
    rw [Word.OnOperands] at h
    unfold Wordstack.execute
    exact Task.Coupled.bind (R := (· = ·)) (.view fun hi _ => hC.call hi) fun call _ heq =>
      heq ▸ executeBody hC hself label.name call h
  | .native _ inputs hasOptions waits _ _, h => by
    rw [Word.OnOperands] at h
    unfold Wordstack.execute
    exact hC.guarded rfl rfl h.2 ((hC.callNative inputs hasOptions waits h.1.1 h.1.2).mono
      fun _ _ _ => ⟨⟩)
  | .direct _ waits _ _, h => by
    rw [Word.OnOperands] at h
    unfold Wordstack.execute
    exact hC.guarded rfl rfl h.2 (((hC.perform (h.1.1 P) h.1.2).callCode waits).mono
      fun _ _ _ => ⟨⟩)
  | .openArray, _ => by
    unfold Wordstack.execute
    exact hC.openArray
  | .closeArray, _ => by
    unfold Wordstack.execute
    exact hC.closeArray
  | .memo .., h | .memoRefresh .., h | .memoReload .., h | .openModule _, h | .closeModule, h
  | .remote .., h => by
    rw [Word.OnOperands] at h
    exact h.elim

theorem executeBody (hC : C.Answers P e Query.isOnOperands)
    (hself : ∀ {v : Val}, v.Issued issued → v.Paired P v) (name : String)
    (call : Option Location) : ∀ {body : List (Word × Location)},
      Word.BodyOnOperands issued body →
        Task.Coupled C (· = ·) (executeBody e name call body) (executeBody e name call body)
  | [], _ => by
    unfold Wordstack.executeBody
    exact .pure rfl
  | (w, _) :: _, h => by
    rw [Word.BodyOnOperands] at h
    unfold Wordstack.executeBody
    refine ((hC.noteDispatch rfl rfl _).bind fun _ _ _ =>
      (execute hC hself h.1).call).call.attempt.bind fun outcome outcome' houtcome => ?_
    cases houtcome with
    | ok => exact executeBody hC hself name call h.2
    | error f =>
      dsimp only
      split
      · exact .throw _
      · exact .throw _
end

end Coupling.Answers

end Wordstack
