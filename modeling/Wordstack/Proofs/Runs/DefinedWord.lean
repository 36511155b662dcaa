import Wordstack.Proofs.Runs.Compiled
import Wordstack.Value.Equal

/-!
# Defined words
-/

namespace Wordstack

/-! ## Looking a new word up -/

theorem Word.name_relabel (f : WordLabel → WordLabel) (w : Word) (hf : ∀ l, (f l).name = l.name) :
    (w.relabel f).name = w.name := by
  cases w with
  | openArray | closeArray | openModule name | closeModule => rfl
  | _ => exact hf _

/-- The word that was added last is the one of its name. -/
theorem Module.ownWord?_addWord (m : Module) (id : Nat) (w : Word) :
    (m.addWord id w).ownWord? w.name =
      some (w.relabel fun l => { l with id := some id, home := some m.name }) := by
  unfold ownWord? addWord
  rw [List.reverse_append, List.reverse_singleton, List.singleton_append]
  exact List.find?_cons_of_pos (beq_iff_eq.mpr (Word.name_relabel _ w fun _ => rfl))

theorem Store.findIn?_addWord {s : Store} {m : Nat} {w : Word} (hm : m < s.modules.size) :
    findIn? (s.addWord m w).modules m w.name =
      some (w.relabel fun l => { l with id := some s.nextId, home := some (s.module m).name }) := by
  have hmodule : (s.addWord m w).modules[m]? = some ((s.module m).addWord s.nextId w) := by
    unfold Store.addWord Store.updateModule Store.module
    rw [Array.getElem?_modify, if_pos rfl, Array.getElem?_eq_getElem hm]
    rfl
  unfold findIn?
  rw [hmodule]
  simp only [Module.ownWord?_addWord]

theorem Profile.count_of_closed {p : Profile} {name : String} (h : p.isOpen = false) :
    p.count name = p := by
  unfold count
  rw [h]
  rfl

/-! ## Agreement -/

/-- The values on the stack and those of all variables are the same. -/
structure SameValues (i : Interp) (s : Store) (j : Interp) (t : Store) : Prop where
  stack : j.stack = i.stack
  values : t.cells = s.cells
  names : ∀ m, (t.module m).cells = (s.module m).cells

theorem SameValues.refl (i : Interp) (s : Store) : SameValues i s i s := ⟨rfl, rfl, fun _ => rfl⟩

theorem Redefinition.Beside.sameValues {d : Redefinition} {i j : Interp} {s t : Store}
    (h : d.Beside i s j t) : SameValues i s j t := by
  refine ⟨h.view Interp.stack fun _ _ _ _ _ => rfl,
    h.store.view Store.cells (fun _ _ _ _ _ => rfl) fun _ _ => rfl, fun m => ?_⟩
  refine h.store.view (fun s => (s.module m).cells) (fun s k id w n => ?_) fun _ _ => rfl
  show ((s.updateModule k fun x => x.addWord id w).module m).cells = _
  rw [Store.module_updateModule]
  split
  · rename_i hk
    rw [hk.1]
    rfl
  · rfl

/-- How a source ends, and the word of the name that is defined by it. Both end alike: with the same
values, and with faults that are equal but for texts and places. Only the word wraps a fault, and
tells which definition it comes from. -/
inductive DefinitionAgreement (name : String) : Outcome Unit → Outcome Unit → Prop
  | ok {i j : Interp} {s t : Store} (h : SameValues i s j t) :
      DefinitionAgreement name (.ended (.ok ()) i s) (.ended (.ok ()) j t)
  | same {f g : Fault} {i j : Interp} {s t : Store} (hf : f.blur = g.blur)
      (h : SameValues i s j t) :
      DefinitionAgreement name (.ended (.fault f) i s) (.ended (.fault g) j t)
  | wrapped {f g : Fault} {l l' : Option Location} {i j : Interp} {s t : Store}
      (hf : f.blur = g.blur) (h : SameValues i s j t) :
      DefinitionAgreement name (.ended (.fault f) i s)
        (.ended (.fault (.wordExecution ("Error executing " ++ name) (some g) l l')) j t)
  | exhausted {i j : Interp} {s t : Store} :
      DefinitionAgreement name (.ended .exhausted i s) (.ended .exhausted j t)
  | hung {s t : Store} : DefinitionAgreement name (.hung s) (.hung t)

section Ends

variable {d : Redefinition} {i j : Interp} {s t : Store}

/-- Runs whose tokens have been read are both over, unless a bracket is left open in both. -/
theorem Redefinition.Beside.finishRun (h : d.Beside i s j t) (saved saved' : Transient) :
    DefinitionAgreement d.name ((Task.finishRun true saved (.ok ())).finish i s)
      ((Task.finishRun true saved' (.ok ())).finish j t) := by
  have hvalues := h.sameValues
  have hmarks : j.marks = i.marks := h.view Interp.marks fun _ _ _ _ _ => rfl
  by_cases hm : i.marks = []
  · rw [Task.finish_finishRun_closed fun _ => hm,
      Task.finish_finishRun_closed fun _ => hmarks.trans hm]
    exact .ok ⟨hvalues.stack, hvalues.values, hvalues.names⟩
  · rw [Task.finish_finishRun_open hm, Task.finish_finishRun_open fun e => hm (hmarks.symm.trans e)]
    exact .same rfl ⟨hvalues.stack, hvalues.values, hvalues.names⟩

theorem BodyEnds.finishReading {call : Option Location} {x y : Outcome Unit}
    (h : BodyEnds d call x y) (saved saved' : Transient) (stop stop' : Location) :
    DefinitionAgreement d.name (x.attempt.bind (finishReading saved stop))
      (y.attempt.bind (finishReading saved' stop')) := by
  cases h with
  | ok hb => exact (hb.place _ _ (some stop) (some stop')).finishRun saved saved'
  | stop hf hb =>
    have h := hb.sameValues
    exact .same hf ⟨h.stack, h.values, h.names⟩
  | wrapped hf hb =>
    have h := hb.sameValues
    exact .wrapped hf ⟨h.stack, h.values, h.names⟩
  | exhausted => exact .exhausted
  | hung => exact .hung

end Ends

/-! ## Defining a word and running it -/

/-- Runs a source once `n` identities were given out. -/
def runGiving (e : Nested) (n : Nat) (source : String) : Task Unit := do
  Task.call (initializePending e)
  Task.updateStore fun s => s.giveOut n
  runSource e source .origin

/-- Runs the source of a definition, and then one that consists of the name. -/
def defineThenRun (e : Nested) (definition name : String) : Task Unit := do
  runSource e definition .origin
  runSource e name .origin

/-- A body whose compilation makes no difference where no modules are pending: all its tokens can be
compiled, and wherever it comes to a word that is no literal, the execution alters nothing and does
not depend on what the definition makes different. -/
structure Definable (e : Nested) (d : Redefinition) (body : List Token) (input : String)
    (i : Interp) (s : Store) : Prop where
  current : i.current? = some d.module
  known : d.module < s.modules.size
  free : i.literal? d.name = none
  given : d.given ≤ 1
  counted : d.counted = i.profile.isOpen
  compiles : ∀ t ∈ body, t.Compiles i s
  discreet : d.Discreet e body (i.beginRun input) (s.giveOut (1 - d.given))

section Running

variable {depth : Nat} {d : Redefinition} {i : Interp} {s : Store}

/-- Where no modules are pending none are initialized. -/
theorem finish_runSource_nil {e : Nested} {source : String} {origin : Location} (hin : i.inputs = [])
    (hpending : i.pending = []) : (runSource e source origin).finish i s =
      (Task.ownRun e true (Scanner.start source origin)).finish i s := by
  rw [finish_runSource_outermost hin, finish_initializePending_nil hpending, Outcome.bind_ok]

/-- Giving nothing out is running the source. -/
theorem finish_runGiving_zero {source : String} (hin : i.inputs = []) :
    (runGiving (nested depth) 0 source).finish i s =
      (runSource (nested depth) source .origin).finish i s := by
  unfold runGiving
  rw [Task.finish_bind, Task.finish_call, finish_runSource_outermost hin]
  cases hp : (initializePending (nested depth)).finish i s with
  | hung u => rfl
  | ended r i₀ s₀ =>
    cases r with
    | fault f => rfl
    | exhausted => rfl
    | ok =>
      have hin₀ : i₀.inputs = [] :=
        (finish_initializePending_keeps (Invariant.trivial 0) trivial hp
          Result.ok_ne_exhausted).1.trans hin
      rw [Outcome.bind_ok, Outcome.bind_ok, Task.finish_bind]
      exact finish_runSource_nil hin₀ (initializePending_empties hp)

/-- The states in which the body begins to be read, and in which the definition is executed. -/
theorem Definable.beside {e : Nested} {body : List Token} {input name : String} {label : WordLabel}
    {entries : List (Word × Location)} {p : Profile} {call previous : Option Location}
    (h : Definable e d body input i s) (hname : label.name = d.name)
    (hp : i.profile.isOpen = false → p = i.profile) :
    d.Beside (i.beginRun input) (s.giveOut (1 - d.given))
      ((i.beginRun name).placed (name :: i.inputs) call previous p)
      (s.addWord d.module (.definition label entries)) := by
  refine ⟨rfl, rfl, fun hc => hp (h.counted.symm.trans hc), s.nextId, .definition label entries,
    hname, ?_⟩
  have hids : s.nextId + (1 - d.given) + d.given = s.nextId + 1 := by
    have := h.given
    omega
  have hstore : (s.giveOut (1 - d.given)).withWord d.module s.nextId (.definition label entries)
      d.given = s.addWord d.module (.definition label entries) := by
    show ({ (s.updateModule d.module fun x => x.addWord s.nextId _) with
      nextId := s.nextId + (1 - d.given) + d.given } : Store) = _
    rw [hids]
    rfl
  exact hstore ▸ .refl _

/-- No definition is open where a body has been read to its end, -/
theorem BodyEnds.compiling_left {call : Option Location} {y : Outcome Unit}
    (h : BodyEnds d call (.ended (.ok ()) i s) y) : i.compiling = false := by
  cases h with
  | ok _ hc => exact hc

/-- nor where the entries of the definition have been executed. -/
theorem BodyEnds.compiling_right {call : Option Location} {x : Outcome Unit}
    (h : BodyEnds d call x (.ended (.ok ()) i s)) : i.compiling = false := by
  cases h with
  | ok hb hc => exact (hb.view Interp.compiling fun _ _ _ _ _ => rfl).trans hc

/-- The definition is left for where its name stands. -/
theorem BodyEnds.moved {call : Option Location} {x y : Outcome Unit} (h : BodyEnds d call x y)
    (l : Location) :
    BodyEnds d call x (y.bind fun _ j t => .ended (.ok ()) (j.moved j.inputs j.call (some l)) t) := by
  cases h with
  | ok hb hc => exact .ok (hb.place _ _ _ _) hc
  | stop hf hb => exact .stop hf hb
  | wrapped hf hb => exact .wrapped hf hb
  | exhausted => exact .exhausted
  | hung => exact .hung

/-- A definition is executed by its entries. -/
theorem finish_dispatch_definition {e : Nested} {label : WordLabel}
    {entries : List (Word × Location)} {l : Option Location} :
    (dispatch e (.definition label entries) l).finish i s =
      (executeBody e label.name l entries).finish
        (i.placed i.inputs l i.previous
          (i.profile.count (Word.definition label entries).qualifiedName)) s := by
  unfold dispatch
  rw [Task.finish_bind, noteDispatch, Task.finish_update, Outcome.bind_ok, Task.finish_call, execute,
    Task.finish_bind, Task.finish_view, Outcome.bind_ok]
  rfl

theorem finish_readTokens_defined {e : Nested} {t : Token} {label : WordLabel}
    {entries : List (Word × Location)} (hw : t.word? i s = some (.definition label entries))
    (hc : i.compiling = false) :
    (Task.readTokens e [t]).finish i s =
      ((executeBody e label.name (some t.location) entries).finish
        (i.placed i.inputs (some t.location) i.previous
          (i.profile.count (Word.definition label entries).qualifiedName)) s).bind
        fun _ j u => .ended (.ok ()) (j.moved j.inputs j.call (some t.location)) u := by
  rw [finish_readTokens_cons, finish_readToken, finish_handleToken_of_word? hw,
    finish_handleWord_idle hc, finish_dispatch_definition]
  generalize (executeBody e label.name (some t.location) entries).finish _ s = x
  cases x with
  | hung u => rfl
  | ended r j u => cases r <;> rfl

/-- The name of the word is found in the current module after the definition. -/
theorem Definable.word?_eq {e : Nested} {body : List Token} {input : String} {label : WordLabel}
    {entries : List (Word × Location)} {t : Token} {j : Interp} (h : Definable e d body input i s)
    (hlabel : label.name = d.name) (hk : t.kind = .word) (ht : t.text = d.name)
    (hj : SameNames i s j s) :
    t.word? j (s.addWord d.module (.definition label entries)) =
      some (.definition { label with id := some s.nextId, home := some (s.module d.module).name }
        entries) := by
  obtain ⟨rest, hscope⟩ : ∃ rest, i.scope = d.module :: rest := List.head?_eq_some_iff.mp h.current
  have hfound := Store.findIn?_addWord (w := .definition label entries) h.known
  rw [show (Word.definition label entries).name = d.name from hlabel] at hfound
  unfold Token.word?
  rw [hk, ht]
  simp only [Interp.toOption_resolve]
  rw [hj.literal?_eq, h.free, hj.scope, hscope, List.findSome?_cons, hfound]
  rfl

/-- Reading the body before the definition, and reading the name after it. -/
theorem Definable.reads {body inner : List Token} {input : String} {label : WordLabel} {t : Token}
    (h : Definable (nested depth) d body input i s) (hi : i.Idle)
    (hinner : inner.map Token.pair = body.map Token.pair) (hlabel : label.name = d.name)
    (hk : t.kind = .word) (ht : t.text = d.name) (name : String) (previous : Option Location) :
    BodyEnds d (some t.location)
      ((Task.readTokens (nested depth) body).finish (i.beginRun input) (s.giveOut (1 - d.given)))
      ((Task.readTokens (nested depth) [t]).finish
        ((i.moved i.inputs i.call previous).beginRun name)
        (s.addWord d.module (.definition label (compiled i s inner)))) := by
  have hn : SameNames i s (i.beginRun input) (s.giveOut (1 - d.given)) := ⟨rfl, rfl, rfl⟩
  let j := (i.moved i.inputs i.call previous).beginRun name
  have hj : SameNames i s j s := ⟨rfl, rfl, rfl⟩
  have hcompiling : j.compiling = false := hi.compiling
  rw [finish_readTokens_defined (h.word?_eq hlabel hk ht hj) hcompiling, ← hn.compiled_eq inner]
  show BodyEnds d (some t.location) _ (((executeBody (nested depth) label.name _ _).finish _ _).bind _)
  rw [hlabel]
  refine .moved (finish_readTokens_compiled hinner (hn.compiles h.compiles) h.discreet hi.compiling
    (h.beside hlabel fun hclosed => Profile.count_of_closed hclosed)) t.location

/-- `definition_agrees_with_body` where no modules are pending. -/
theorem Definable.agrees {source definition : String} {body : List Token}
    (h : Definable (nested depth) d body (Scanner.start source .origin).input i s)
    (hin : i.inputs = []) (hpending : i.pending = []) (hi : i.Idle) (hr : i.recovery = none)
    (hmarks : i.marks = []) (hname : IsWord d.name) (hbody : tokenize source .origin = .ok body)
    (hdefinition : Defines definition d.name body) :
    DefinitionAgreement d.name
      ((Task.ownRun (nested depth) true (Scanner.start source .origin)).finish i
        (s.giveOut (1 - d.given)))
      ((defineThenRun (nested depth) definition d.name).finish i s) := by
  obtain ⟨l, previous, inner, hinner, hdefined⟩ := finish_runSource_definition (e := nested depth)
    hdefinition hin hpending hi hr hmarks h.current h.compiles
  obtain ⟨t, htokens, hk, htext⟩ := hname
  obtain ⟨stop, hrun⟩ := finish_ownRun_tokens (e := nested depth) hbody
  obtain ⟨stop', hrun'⟩ := finish_ownRun_tokens (e := nested depth) htokens
  have hlabel : ({ name := d.name, location := some l } : WordLabel).name = d.name := rfl
  have hreads := h.reads hi hinner hlabel hk htext (Scanner.start d.name .origin).input previous
  let j := i.moved i.inputs i.call previous
  have hj : j.inputs = [] := hin
  have hjpending : j.pending = [] := hpending
  unfold defineThenRun
  rw [Task.finish_bind, hdefined, Outcome.bind_ok, finish_runSource_nil hj hjpending,
    hrun i _ hr fun _ _ hend => (hend ▸ hreads).compiling_left,
    hrun' j _ hr fun _ _ hend => (hend ▸ hreads).compiling_right]
  exact hreads.finishReading _ _ stop stop'

/-- Defining a word and running it leaves the same values as running the body of its definition
before, and fails just where that does: with the same fault but for texts and places, or with a
fault around it that tells the definition. The body may mention an earlier word of the name. -/
theorem definition_agrees_with_body {source definition : String} {body : List Token}
    (hin : i.inputs = []) (hi : i.Settled) (hr : i.recovery = none) (hmarks : i.marks = [])
    (hname : IsWord d.name) (hbody : tokenize source .origin = .ok body)
    (hdefinition : Defines definition d.name body)
    (h : ∀ i₀ s₀, (initializePending (nested depth)).finish i s = .ended (.ok ()) i₀ s₀ →
      Definable (nested depth) d body (Scanner.start source .origin).input i₀ s₀) :
    DefinitionAgreement d.name
      ((runGiving (nested depth) (1 - d.given) source).finish i s)
      ((defineThenRun (nested depth) definition d.name).finish i s) := by
  have hplain : i.Plain := ⟨⟨hi.wellCompiled hin, hi⟩, hr⟩
  unfold runGiving defineThenRun
  rw [Task.finish_bind, Task.finish_call, Task.finish_bind,
    finish_runSource_outermost hin]
  cases hp : (initializePending (nested depth)).finish i s with
  | hung u => exact .hung
  | ended r i₀ s₀ =>
    cases r with
    | exhausted => exact .exhausted
    | fault f => exact .same rfl (.refl i₀ s₀)
    | ok =>
      obtain ⟨hinputs, hplain₀⟩ := finish_initializePending_keeps (Interp.plain_invariant 0) hplain hp
        Result.ok_ne_exhausted
      have hin₀ : i₀.inputs = [] := hinputs.trans hin
      have hpending₀ : i₀.pending = [] := initializePending_empties hp
      have hmarks₀ : i₀.marks = [] := by
        rw [finish_initializePending] at hp
        exact finish_drainPending_marks hin hmarks hp
      have hagrees := (h i₀ s₀ hp).agrees hin₀ hpending₀ (hplain₀.1.2 hin₀) hplain₀.2 hmarks₀ hname
        hbody hdefinition
      unfold defineThenRun at hagrees
      rw [Task.finish_bind, finish_runSource_nil hin₀ hpending₀] at hagrees
      rw [Outcome.bind_ok, Outcome.bind_ok, Task.finish_bind]
      show DefinitionAgreement d.name
        ((runSource (nested depth) source .origin).finish i₀ (s₀.giveOut (1 - d.given))) _
      rw [finish_runSource_nil hin₀ hpending₀]
      exact hagrees

end Running

/-! ## Fixed bodies -/

/-- A new interpreter that reads integers, and works in the module at index 0. -/
def Interp.readingInts : Interp := { Interp.blank with readers := [Literal.int] }

/-- A store with one module. -/
def Store.holding (words : List Word) : Store :=
  { modules := #[{ name := "", words }], nextId := words.length }

/-- A word that drops a value, and a definition of the name `W`. -/
def earlierWords : List Word :=
  [.direct { name := "DROP" } false (.ask .pop fun _ => .done ()) [],
   .definition { name := "W" } [(.constant { name := "2" } (.int 2), .origin)]]

/-- A body with an earlier word of the name that it is going to define. -/
def earlierBody : String := "W \"a\" [ 1 .key ] DROP # done"

theorem earlierWords_calm : ∀ w ∈ earlierWords,
    w.Asks Query.isStill ∧ w.Asks Query.isQuiet ∧ w.Blind := by
  intro w hw
  obtain rfl | rfl := by simpa [earlierWords] using hw
  · exact ⟨⟨⟨rfl, fun _ => trivial⟩, nofun⟩, ⟨⟨rfl, fun _ => trivial⟩, nofun⟩,
      .ask .pop fun _ _ _ => .done (), nofun⟩
  · exact ⟨⟨trivial, trivial⟩, ⟨trivial, trivial⟩, ⟨trivial, trivial⟩⟩

theorem definition_agrees_with_body_earlier :
    DefinitionAgreement "W"
      ((runGiving (nested 1) 0 earlierBody).finish .readingInts (.holding earlierWords))
      ((defineThenRun (nested 1) (definitionText "W" earlierBody) "W").finish .readingInts
        (.holding earlierWords)) := by
  have hW : IsWord "W" := ⟨_, rfl, rfl, rfl⟩
  obtain ⟨body, hbody, hcompiles⟩ : ∃ body, tokenize earlierBody .origin = .ok body ∧
      (body.all fun t =>
        t.kind = .comment ∨ (t.word? .readingInts (.holding earlierWords)).isSome) = true :=
    Except.exists_of_any (by decide +kernel)
  refine definition_agrees_with_body (d := ⟨0, "W", 1, false⟩) rfl (fun _ => rfl) rfl rfl hW hbody
    (defines_definitionText hW (List.forall_mem_singleton.mpr rfl) hbody) fun i₀ s₀ h => ?_
  cases h
  refine ⟨rfl, by decide, rfl, Nat.le_refl 1, rfl, fun t ht => ?_, .of_words fun m hm => ?_⟩
  · unfold Token.Compiles
    exact of_decide_eq_true (List.all_eq_true.mp hcompiles t ht)
  · obtain rfl : m = { name := "", words := earlierWords } := by
      simpa [Store.giveOut, Store.holding] using hm
    exact earlierWords_calm

/-- Code that leaves the reply to a query. -/
def Native.telling (q : Query) (f : q.Reply → Val) : Native Unit :=
  .ask q fun r => .ask (.push (f r)) fun _ => .done ()

/-- Words that tell which word a name stands for and where they are called, and a definition of the
name. -/
def tellingWords : List Word :=
  [.direct { name := "REF" } false (.telling (.findWord "W") fun r : Ref => .wordRef r) [],
   .direct { name := "PLACE" } false
     (.telling .callLocation fun l : Option Location => .int ((l.map Location.startPos).getD 0)) [],
   .definition { name := "W", id := some 2 } []]

theorem tellingWords_still : ∀ w ∈ tellingWords, w.Asks Query.isStill := by
  intro w hw
  obtain rfl | rfl | rfl := by simpa [tellingWords] using hw
  · exact ⟨⟨rfl, fun _ => ⟨rfl, fun _ => trivial⟩⟩, nofun⟩
  · exact ⟨⟨rfl, fun _ => ⟨rfl, fun _ => trivial⟩⟩, nofun⟩
  · trivial

/-- Both tasks end without a fault, and leave other values on the stack. -/
def endUnlike (x y : Outcome Unit) : Bool :=
  x.isOk fun j _ => y.isOk fun k _ => !Val.equalItems j.stack.toList k.stack.toList

theorem exists_of_endUnlike {x y : Outcome Unit} (h : endUnlike x y = true) :
    ∃ j t k u, x = .ended (.ok ()) j t ∧ y = .ended (.ok ()) k u ∧
      Val.equalItems j.stack.toList k.stack.toList = false := by
  obtain ⟨j, t, hx, h⟩ := Outcome.exists_of_isOk h
  obtain ⟨k, u, hy, h⟩ := Outcome.exists_of_isOk h
  exact ⟨j, t, k, u, hx, hy, by simpa using h⟩

theorem definition_may_disagree_with_body :
    (∀ name ∈ ["REF", "PLACE"], IsWord name ∧
      ∃ w, Interp.readingInts.resolve (.holding tellingWords) name none = .ok w ∧
        (∀ e l j t k u, (dispatch e w l).finish j t = .ended (.ok ()) k u → Unaltered j t k u) ∧
        ∃ j t k u,
          (runSource (nested 1) name .origin).finish .readingInts (.holding tellingWords) =
            .ended (.ok ()) j t ∧
          (defineThenRun (nested 1) (definitionText "W" name) "W").finish .readingInts
            (.holding tellingWords) = .ended (.ok ()) k u ∧
          Val.equalItems j.stack.toList k.stack.toList = false) ∧
    (∃ j t k u,
      (runSource (nested 1) "1" .origin).finish .readingInts (.holding []) =
        .ended (.ok ()) j t ∧
      (defineThenRun (nested 1) (definitionText "5" "1") "5").finish .readingInts (.holding []) =
        .ended (.ok ()) k u ∧ Val.equalItems j.stack.toList k.stack.toList = false) ∧
    (∃ j t k u l v f m w,
      (runSource (nested 1) ": F [ ;" .origin).finish .readingInts (.holding []) =
        .ended (.ok ()) j t ∧
      (executeWord (nested 1) "F").finish j t = .ended (.ok ()) k u ∧
      (runSource (nested 1) "]" .origin).finish k u = .ended (.ok ()) l v ∧
      (defineThenRun (nested 1) (definitionText "W" "]") "W").finish k u =
        .ended (.fault f) m w) := by
  refine ⟨fun name hname => ⟨?_, ?_⟩, exists_of_endUnlike (by decide +kernel), ?_⟩
  · obtain rfl | rfl := by simpa using hname
    · exact ⟨_, rfl, rfl, rfl⟩
    · exact ⟨_, rfl, rfl, rfl⟩
  · have hcheck : (["REF", "PLACE"].all fun name =>
        ((Interp.readingInts.resolve (.holding tellingWords) name none).toOption.any fun _ =>
          endUnlike ((runSource (nested 1) name .origin).finish .readingInts (.holding tellingWords))
            ((defineThenRun (nested 1) (definitionText "W" name) "W").finish .readingInts
              (.holding tellingWords)))) = true := by
      decide +kernel
    obtain ⟨w, hw, hends⟩ := Except.exists_of_any (List.all_eq_true.mp hcheck name hname)
    have hstill : w.Asks Query.isStill := by
      refine Interp.of_resolve (fun m hm => ?_) (fun _ _ => trivial) hw
      obtain rfl : m = { name := "", words := tellingWords } := by simpa [Store.holding] using hm
      exact tellingWords_still
    exact ⟨w, hw, fun _ _ _ _ _ _ => .of_still hstill, exists_of_endUnlike hends⟩
  · have hcheck : ((runSource (nested 1) ": F [ ;" .origin).finish .readingInts (.holding [])).isOk
        (fun j t => ((executeWord (nested 1) "F").finish j t).isOk fun k u =>
          (((runSource (nested 1) "]" .origin).finish k u).isOk fun _ _ => true) &&
          ((defineThenRun (nested 1) (definitionText "W" "]") "W").finish k u).isFault
            fun _ _ => true) = true := by
      decide +kernel
    obtain ⟨j, t, hj, h⟩ := Outcome.exists_of_isOk hcheck
    obtain ⟨k, u, hk, h⟩ := Outcome.exists_of_isOk h
    obtain ⟨hbody, hdefined⟩ := Bool.and_eq_true_iff.mp h
    obtain ⟨l, v, hl, -⟩ := Outcome.exists_of_isOk hbody
    obtain ⟨f, m, w, hm, -⟩ := Outcome.exists_of_isFault hdefined
    exact ⟨j, t, k, u, l, v, f, m, w, hj, hk, hl, hm⟩

end Wordstack
