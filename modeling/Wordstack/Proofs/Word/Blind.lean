import Wordstack.Proofs.Value.Paired
import Wordstack.Vocabulary.Core

/-!
# Code that does not tell places, and code that depends on what it is given only

Two runs of one program from different places end with the same fault, but for the texts and the
locations that it names. Native code can ask where its word is called and which text is being run.
Blind code puts the replies into faults only, so what it does is the same wherever it is called.

Code sees an identity only as part of a value that it is given or that is replied to it. It can give
the value back, and compare it with others, but which number the identity is makes no difference.

- **Blurring** (`Fault.blur`): the fault and its causes without texts and locations. Kind and message
  are those of the blurred one (`Fault.message_eq_of_blur`, `Fault.errorType_eq_of_blur`).
- **Faults** (`Fault.Alike`): equal, or equal but for places if those may differ.
- **Replies** (`Query.Alike`), **code** (`Native.Alike`) and **handlers** (`Handler.Alike`): the
  same but for faults; code may also depend on replies that name places.
- **Blind code** (`Native.Blind`, `Handler.Blind`) and **blind words** (`Word.Blind`): all native
  code behind the word is blind.
- **What code asks** (`Native.Asks`, `Word.Asks`): code and words that ask queries of a kind only.
  Answering still ones (`Query.isStill`) alters no dictionary and creates no variable; the answers
  to quiet ones (`Query.isQuiet`) do not depend on what names stand for.
- **Plain queries** (`Query.isPlain`): those that name no value and are answered by the interpreter
  and the store alone. Other runtimes, and connections that interpreters share, are asked by none.
- **Pairs of queries** (`Query.Paired`), of replies (`Query.RepliesPaired`) and of code
  (`Native.Paired`): from replies that are the same but for identities it asks queries that are, and
  ends with results in a relation.
- **Uniform code** (`Native.Uniform`, `Native.UniformOn`, `Handler.Uniform`): code that is paired with
  itself, whatever the identities are.
-/

namespace Wordstack

/-! ## Faults without their places -/

namespace Fault

/-- The fault without the texts and locations that it and its causes name. -/
def blur : Fault → Fault
  | general _ note _ none => general "" note none none
  | general _ note _ (some cause) => general "" note none (some cause.blur)
  | tokenize _ note _ => tokenize "" note none
  | unterminatedString _ _ => unterminatedString "" none
  | invalidWordName _ note _ => invalidWordName "" note none
  | unmatchedBracket _ bracket _ => unmatchedBracket "" bracket none
  | unknownWord _ word scope _ => unknownWord "" word scope none
  | nativeWord word module underlying none _ => nativeWord word module underlying none none
  | nativeWord word module underlying (some cause) _ =>
    nativeWord word module underlying (some cause.blur) none
  | wordExecution note none _ _ => wordExecution note none none none
  | wordExecution note (some inner) _ _ => wordExecution note (some inner.blur) none none
  | stackUnderflow _ _ => stackUnderflow "" none
  | badOptions note => badOptions note
  | badStackEffect effect note => badStackEffect effect note
  | invalidVariableName _ name _ => invalidVariableName "" name none
  | missingSemicolon _ _ => missingSemicolon "" none
  | extraSemicolon _ _ => extraSemicolon "" none
  | unknownModule _ module _ => unknownModule "" module none
  | moduleFailed module none => moduleFailed module none
  | moduleFailed module (some cause) => moduleFailed module (some cause.blur)
  | moduleLoad module reason none => moduleLoad module reason none
  | moduleLoad module reason (some cause) => moduleLoad module reason (some cause.blur)
  | tooManyAttempts _ attempts limit => tooManyAttempts "" attempts limit
  | wireFormat note => wireFormat note
  | requestTimeout method ms => requestTimeout method ms
  | remoteExecution report => remoteExecution report
  | remoteRuntime address note none => remoteRuntime address note none
  | remoteRuntime address note (some cause) => remoteRuntime address note (some cause.blur)
  | stopped message => stopped message
  | host kind message => host kind message
  | thrown text => thrown text

@[simp] theorem kindName?_blur (f : Fault) : f.blur.kindName? = f.kindName? := by
  unfold blur; split <;> rfl

@[simp] theorem isEngine_blur (f : Fault) : f.blur.isEngine = f.isEngine := by
  unfold blur; split <;> rfl

@[simp] theorem isStop_blur (f : Fault) : f.blur.isStop = f.isStop := by
  unfold blur; split <;> rfl

@[simp] theorem message_blur (f : Fault) : f.blur.message = f.message := by
  fun_induction blur f with
  | case20 module cause ih =>
    change "Error in module " ++ module ++ ": " ++ cause.blur.message = _
    rw [ih]
    rfl
  | _ => rfl

theorem kindName?_eq_of_blur {f g : Fault} (h : f.blur = g.blur) : f.kindName? = g.kindName? := by
  rw [← kindName?_blur f, h, kindName?_blur]

theorem isEngine_eq_of_blur {f g : Fault} (h : f.blur = g.blur) : f.isEngine = g.isEngine := by
  rw [← isEngine_blur f, h, isEngine_blur]

theorem isStop_eq_of_blur {f g : Fault} (h : f.blur = g.blur) : f.isStop = g.isStop := by
  rw [← isStop_blur f, h, isStop_blur]

theorem message_eq_of_blur {f g : Fault} (h : f.blur = g.blur) : f.message = g.message := by
  rw [← message_blur f, h, message_blur]

theorem errorType_eq_of_blur {f g : Fault} (h : f.blur = g.blur) : f.errorType = g.errorType := by
  unfold errorType; rw [kindName?_eq_of_blur h]

/-- What a program sees of a fault that it caught has no place in it. -/
theorem toRecord_eq_of_blur {f g : Fault} (h : f.blur = g.blur) : f.toRecord = g.toRecord := by
  unfold toRecord; rw [message_eq_of_blur h, errorType_eq_of_blur h]

end Fault

/-! ## Faults that are alike -/

/-- Two faults are equal, or equal but for places if those may differ. -/
def Fault.Alike (loose : Bool) (f g : Fault) : Prop :=
  if loose then f.blur = g.blur else f = g

namespace Fault.Alike

variable {loose : Bool} {f g : Fault}

@[refl] theorem refl (loose : Bool) (f : Fault) : Fault.Alike loose f f := by
  cases loose <;> rfl

theorem blur_eq (h : Fault.Alike loose f g) : f.blur = g.blur := by
  cases loose with
  | false => exact congrArg blur h
  | true => exact h

theorem message_eq (h : Fault.Alike loose f g) : f.message = g.message :=
  message_eq_of_blur h.blur_eq

theorem isStop_eq (h : Fault.Alike loose f g) : f.isStop = g.isStop := isStop_eq_of_blur h.blur_eq

theorem isEngine_eq (h : Fault.Alike loose f g) : f.isEngine = g.isEngine :=
  isEngine_eq_of_blur h.blur_eq

theorem toRecord_eq (h : Fault.Alike loose f g) : f.toRecord = g.toRecord :=
  toRecord_eq_of_blur h.blur_eq

/-- Faults that are equal stay so when more may differ. -/
theorem of_eq (h : f = g) : Fault.Alike loose f g := h ▸ refl loose f

/-- A fault around another one. -/
theorem wrap {k : Fault → Fault} (h : Fault.Alike loose f g)
    (hk : ∀ {f g : Fault}, f.blur = g.blur → (k f).blur = (k g).blur) :
    Fault.Alike loose (k f) (k g) := by
  cases loose with
  | false => exact congrArg k h
  | true => exact hk h

end Fault.Alike

/-- Replies that are the same, but for places if those may differ. -/
def Query.Alike (loose : Bool) : (q : Query) → q.Reply → q.Reply → Prop
  | .attempt _, f, g => Option.Rel (Fault.Alike loose) f g
  | .callLocation, l, l' => loose = true ∨ l = l'
  | .topInput, t, t' => loose = true ∨ t = t'
  | _, r, r' => r = r'

/-- Code that does the same, but for places if those may differ. -/
inductive Native.Alike (loose : Bool) {α : Type} : Native α → Native α → Prop
  | done (a : α) : Alike loose (.done a) (.done a)
  | fail {f g : Fault} (h : Fault.Alike loose f g) : Alike loose (.fail f) (.fail g)
  | ask (q : Query) {next next' : q.Reply → Native α}
      (h : ∀ r r', q.Alike loose r r' → Alike loose (next r) (next' r')) :
      Alike loose (.ask q next) (.ask q next')

/-- Handlers that do the same, but for places if those may differ. -/
def Handler.Alike (loose : Bool) (h h' : Handler) : Prop :=
  ∀ f g, Fault.Alike loose f g → Native.Alike loose (h f) (h' g)

/-- Code that puts places into faults only. -/
def Native.Blind {α : Type} (x : Native α) : Prop := Native.Alike true x x

/-- A handler that puts places into faults only. -/
def Handler.Blind (h : Handler) : Prop := Handler.Alike true h h

/-- Replies that are the same where nothing may differ are equal. -/
theorem Query.Alike.eq {q : Query} {r r' : q.Reply} (h : q.Alike false r r') : r = r' := by
  cases q <;> try exact h
  case attempt => cases h with
    | none => rfl
    | some h => exact congrArg some h
  case callLocation => simpa [Query.Alike] using h
  case topInput => simpa [Query.Alike] using h

namespace Native

variable {α β : Type} {loose : Bool}

theorem map_id_eq (x : Native α) : id <$> x = x := by
  induction x with
  | done a => rfl
  | fail f => rfl
  | ask q next ih => exact congrArg (ask q) (funext ih)

theorem bind_assoc_eq {γ : Type} (x : Native α) (f : α → Native β) (g : β → Native γ) :
    x >>= f >>= g = x >>= fun a => f a >>= g := by
  induction x with
  | done a => rfl
  | fail f => rfl
  | ask q next ih => exact congrArg (ask q) (funext ih)

instance : LawfulMonad Native := .mk' Native map_id_eq (fun _ _ => rfl) bind_assoc_eq

/-- Where nothing may differ all code does the same as itself. -/
theorem Alike.exact (x : Native α) : Alike false x x := by
  induction x with
  | done a => exact .done a
  | fail f => exact .fail rfl
  | ask q next ih =>
    refine .ask q fun r r' h => ?_
    rw [h.eq]
    exact ih r'

theorem Alike.self {x : Native α} (h : loose = true → x.Blind) : Alike loose x x := by
  cases loose with
  | false => exact .exact x
  | true => exact h rfl

theorem Alike.bind {x y : Native α} {f g : α → Native β} (h : Alike loose x y)
    (hf : ∀ a, Alike loose (f a) (g a)) : Alike loose (x >>= f) (y >>= g) := by
  induction h with
  | done a => exact hf a
  | fail h => exact .fail h
  | ask q _ ih => exact .ask q ih

theorem Alike.pure (a : α) : Alike loose (Pure.pure a : Native α) (Pure.pure a) := .done a

theorem Alike.error (f : Fault) : Alike loose (.fail f : Native α) (.fail f) := .fail (.refl _ f)

/-- A query whose replies are all equal where they are alike. -/
theorem Alike.query {q : Query} (h : ∀ r r', q.Alike loose r r' → r = r') :
    Alike loose (Native.query q) (Native.query q) :=
  .ask q fun r r' hr => by rw [h r r' hr]; exact .done r'

theorem Alike.lift (x : Except Fault α) : Alike loose (Native.lift x) (Native.lift x) := by
  cases x with
  | ok a => exact .done a
  | error f => exact .error f

/-- A map of code over a list. -/
theorem Alike.mapM {γ : Type} {f : γ → Native α} (h : ∀ c, Alike loose (f c) (f c))
    (cs : List γ) : Alike loose (cs.mapM f) (cs.mapM f) := by
  induction cs with
  | nil => exact .pure []
  | cons c cs ih =>
    rw [List.mapM_cons]
    exact (h c).bind fun a => ih.bind fun as => .pure _

end Native

theorem Handler.Alike.self {loose : Bool} {h : Handler} (hb : loose = true → h.Blind) :
    Handler.Alike loose h h := by
  cases loose with
  | false =>
    rintro f _ rfl
    exact .exact _
  | true => exact hb rfl

/-! ## Words -/

mutual
/-- All native code behind the word puts places into faults only. -/
def Word.Blind : Word → Prop
  | .native _ _ _ _ code handlers =>
    (∀ args options, (code args options).Blind) ∧ ∀ h ∈ handlers, h.Blind
  | .direct _ _ code handlers => code.Blind ∧ ∀ h ∈ handlers, h.Blind
  | .definition _ body => Word.BlindBody body
  | .memo _ _ w | .memoRefresh _ _ w | .memoReload _ _ w => w.Blind
  | .constant .. | .openArray | .closeArray | .openModule _ | .closeModule | .remote .. => True

/-- `Word.Blind` of every entry. -/
def Word.BlindBody : List (Word × Location) → Prop
  | [] => True
  | (w, _) :: rest => w.Blind ∧ Word.BlindBody rest
end

namespace Word

@[simp] theorem blind_relabel (f : WordLabel → WordLabel) (w : Word) :
    (w.relabel f).Blind ↔ w.Blind := by
  cases w <;> simp [relabel, Blind]

theorem blindBody_append {xs ys : List (Word × Location)} :
    BlindBody (xs ++ ys) ↔ BlindBody xs ∧ BlindBody ys := by
  induction xs with
  | nil => simp [BlindBody]
  | cons x xs ih => simp [BlindBody, ih, and_assoc]

end Word

/-! ## What code asks -/

/-- Whether a query can be answered without running a source, creating a variable or changing what a
module has or shows. -/
def Query.isStill : Query → Bool
  | .run _ | .attempt _ | .variableNamed _ | .exportNames _ | .useModules _ | .useRemote .. => false
  | _ => true

/-- Whether a query is answered without running a source and without looking a word or a module up,
and the answer says nothing about what has been counted or which identities were given out. -/
def Query.isQuiet : Query → Bool
  | .pop | .peek | .popN _ | .top | .push _ | .stack | .setStack _ | .callLocation | .topInput |
    .variableNamed _ | .fetch _ | .store _ _ | .requireScope _ | .startProfile | .stopProfile |
    .print _ | .turn | .never => true
  | _ => false

/-- Code that asks queries of a kind only. -/
def Native.Asks {α : Type} (p : Query → Bool) : Native α → Prop
  | .done _ | .fail _ => True
  | .ask q next => p q = true ∧ ∀ r, (next r).Asks p

theorem Native.asks_all {α : Type} (x : Native α) : x.Asks fun _ => true := by
  induction x with
  | done _ | fail _ => trivial
  | ask q next ih => exact ⟨rfl, ih⟩

/-- A handler that asks queries of a kind only. -/
def Handler.Asks (p : Query → Bool) (h : Handler) : Prop := ∀ f, (h f).Asks p

mutual
/-- All native code behind the word asks queries of a kind only. Words with a state of their own, and
words that change scopes, are left out. -/
def Word.Asks (p : Query → Bool) : Word → Prop
  | .native _ _ _ _ code handlers =>
    (∀ args options, (code args options).Asks p) ∧ ∀ h ∈ handlers, h.Asks p
  | .direct _ _ code handlers => code.Asks p ∧ ∀ h ∈ handlers, h.Asks p
  | .definition _ body => Word.BodyAsks p body
  | .constant .. | .openArray | .closeArray => True
  | .memo .. | .memoRefresh .. | .memoReload .. | .openModule _ | .closeModule | .remote .. => False

/-- `Word.Asks` of every entry. -/
def Word.BodyAsks (p : Query → Bool) : List (Word × Location) → Prop
  | [] => True
  | (w, _) :: rest => w.Asks p ∧ Word.BodyAsks p rest
end

/-! ## Queries -/

/-- Whether a query names no value, and the answer is up to the interpreter that asks. -/
def Query.isPlain : Query → Bool
  | .push _ | .setStack _ | .fetch _ | .store _ _ | .useRemote .. => false
  | .connect pool _ _ | .disconnect pool _ | .connections pool => pool = .own
  | _ => true

/-- Replies to a query that are the same but for identities. -/
def Query.RepliesPaired (P : Pairing) : (q : Query) → q.Reply → q.Reply → Prop
  | .pop, v, w | .peek, v, w | .fetch _, v, w | .profile, v, w => Val.Paired P v w
  | .popN _, vs, ws | .stack, vs, ws => Val.AllPaired P vs ws
  | .top, v, w => Option.Rel (Val.Paired P) v w
  | .findWord _, (r : Ref), (r' : Ref) => P.id r.id r'.id ∧ r.name = r'.name
  | .findModule _, (r : Ref), (r' : Ref) => P.module r.id r'.id ∧ r.name = r'.name
  | .variableNamed _, (r : Ref), (r' : Ref) => P.cell r.id r'.id ∧ r.name = r'.name
  | .fresh, n, n' => P.id n n'
  | _, r, r' => r = r'

/-- Queries that are the same but for identities, and how their replies are related. -/
inductive Query.Paired (P : Pairing) :
    (q q' : Query) → (q.Reply → q'.Reply → Prop) → Prop
  | push {v w : Val} (h : v.Paired P w) : Paired P (.push v) (.push w) fun _ _ => True
  | setStack {vs ws : List Val} (h : Val.AllPaired P vs ws) :
    Paired P (.setStack vs) (.setStack ws) fun _ _ => True
  | fetch {c d : Nat} (h : P.cell c d) : Paired P (.fetch c) (.fetch d) (Val.Paired P)
  | store {c d : Nat} {v w : Val} (hc : P.cell c d) (hv : v.Paired P w) :
    Paired P (.store c v) (.store d w) fun _ _ => True
  | plain {q : Query} (h : q.isPlain = true) : Paired P q q (q.RepliesPaired P)

/-! ## Code -/

/-- Code that asks the same queries but for identities, as long as the replies are the same but for
identities, and ends with the same fault or with results in a relation. -/
inductive Native.Paired (P : Pairing) {α β : Type} (R : α → β → Prop) :
    Native α → Native β → Prop
  | done {a : α} {b : β} (h : R a b) : Paired P R (.done a) (.done b)
  | fail (f : Fault) : Paired P R (.fail f) (.fail f)
  | ask {q q' : Query} {S : q.Reply → q'.Reply → Prop} {next : q.Reply → Native α}
      {next' : q'.Reply → Native β} (hq : Query.Paired P q q' S)
      (h : ∀ r r', S r r' → Paired P R (next r) (next' r')) :
    Paired P R (.ask q next) (.ask q' next')

namespace Native.Paired

variable {P : Pairing} {α β γ δ : Type} {R : α → β → Prop} {S : γ → δ → Prop} {x : Native α}
  {y : Native β}

theorem pure {a : α} {b : β} (h : R a b) : Paired P R (Pure.pure a) (Pure.pure b) := .done h

theorem mono {R' : α → β → Prop} (h : Paired P R x y) (hR : ∀ a b, R a b → R' a b) :
    Paired P R' x y := by
  induction h with
  | done h => exact .done (hR _ _ h)
  | fail f => exact .fail f
  | ask hq _ ih => exact .ask hq ih

theorem bind {f : α → Native γ} {g : β → Native δ} (h : Paired P R x y)
    (hf : ∀ a b, R a b → Paired P S (f a) (g b)) : Paired P S (x >>= f) (y >>= g) := by
  induction h with
  | done h => exact hf _ _ h
  | fail f => exact .fail f
  | ask hq _ ih => exact .ask hq ih

theorem query {q q' : Query} {T : q.Reply → q'.Reply → Prop} (hq : Query.Paired P q q' T) :
    Paired P T (Native.query q) (Native.query q') :=
  .ask hq fun _ _ h => .done h

/-- A query that names no value. -/
theorem plain (q : Query) (h : q.isPlain = true) :
    Paired P (q.RepliesPaired P) (Native.query q) (Native.query q) :=
  query (.plain h)

theorem lift {a : Except Fault α} {b : Except Fault β} (h : ExceptPaired R a b) :
    Paired P R (Native.lift a) (Native.lift b) := by
  cases h with
  | ok h => exact .done h
  | error f => exact .fail f

/-- The same code over values that are the same but for identities, one by one. -/
theorem mapM {f : Val → Native α} {vs ws : List Val} (hvs : Val.AllPaired P vs ws)
    (h : ∀ v w, v.Paired P w → Paired P (· = ·) (f v) (f w)) :
    Paired P (· = ·) (vs.mapM f) (ws.mapM f) := by
  induction hvs with
  | nil => exact pure rfl
  | cons hv _ ih =>
    rw [List.mapM_cons, List.mapM_cons]
    refine (h _ _ hv).bind fun a b hab => ih.bind fun as bs habs => pure ?_
    rw [hab, habs]

end Native.Paired

/-- Code on the stack that depends on the interpreter only. -/
def Native.Uniform (code : Native Unit) : Prop :=
  ∀ P : Pairing, code.Paired P (fun _ _ => True) code

/-- Code that depends on its inputs, its options and the interpreter only. -/
def Native.UniformOn (code : List Val → Options → Native (Option Val)) : Prop :=
  ∀ (P : Pairing) (args args' : List Val) (options options' : Options),
    Val.AllPaired P args args' → Val.EntriesPaired P options.entries options'.entries →
    (code args options).Paired P (Option.Rel (Val.Paired P)) (code args' options')

/-- A handler that depends on the fault and the interpreter only. -/
def Handler.Uniform (h : Handler) : Prop := ∀ f, (h f).Uniform

end Wordstack
