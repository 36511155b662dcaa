import Wordstack.Proofs.Runs.CellStates
import Wordstack.Proofs.Runs.Joined
import Wordstack.Proofs.Runs.NativeWords
import Wordstack.Proofs.Runs.Printed
import Wordstack.Proofs.Runs.UnknownWords

/-!
# Runs of programs on cells

A source that is made of module blocks and of the four words for variables runs as the program on
cells does that its tokens are (`Cells.run`).

- **Ends** (`Cells.EndsAs`): each part of the machine ends as the program does, and in a state that
  stands for that of the program.
- **Words** (`Cells.Stands.act`), **names** (`Cells.Stands.find`), **brackets and blocks**
  (`Cells.Stands.closeBracket`, `Cells.Stands.openBlock`), **tokens** (`Cells.Stands.readToken`).
- **Runs** (`Cells.Stands.run`), by induction on the tokens.
- **Variables** (`variables_behave_as_cells`): what follows for the variables of the store.
-/

namespace Wordstack

/-! ## Code -/

section Code

variable {α : Type} {e : Nested} {i : Interp} {s : Store} {m : Nat} {outer : List Nat}
  {name : String}

/-- Code that goes on with a result is run on in the state that this leaves. -/
theorem finish_perform_bind {β : Type} {x : Native α} {f : α → Native β} :
    (perform e (x >>= f)).finish i s =
      ((perform e x).finish i s).bind fun a j t => (perform e (f a)).finish j t := by
  induction x generalizing i s with
  | done a => rfl
  | fail g => rfl
  | ask q next ih =>
    show (perform e (.ask q fun r => next r >>= f)).finish i s = _
    rw [finish_perform_ask, finish_perform_ask, Outcome.bind_assoc]
    exact congrArg (Outcome.bind _) (funext fun r => funext fun j => funext fun t => ih r)

theorem finish_checkVariableName : (perform e (Native.checkVariableName name)).finish i s =
    if Text.startsWith name "__" then
      .ended (.fault (.invalidVariableName i.topInput name i.call)) i s
    else .ended (.ok ()) i s := by
  unfold Native.checkVariableName
  split
  · rfl
  · rfl

theorem finish_current (hs : i.scope = m :: outer) (operation : String) :
    (Task.current operation).finish i s = .ended (.ok m) i s := by
  unfold Task.finish Task.current Interp.current?
  rw [hs]
  rfl

theorem finish_current_nil (hs : i.scope = []) (operation : String) :
    ∃ f, (Task.current operation).finish i s = .ended (.fault f) i s := by
  unfold Task.finish Task.current Interp.current?
  rw [hs]
  exact ⟨_, rfl⟩

/-- What the variable of a name in the current module is. -/
theorem finish_answer_variableNamed (hs : i.scope = m :: outer) :
    (answer e (.variableNamed name)).finish i s =
      .ended (.ok (⟨(s.variableCell m name .null).1, name⟩ : Ref)) i
        (s.variableCell m name .null).2 := by
  refine (Task.finish_bind (Task.current "addVariable") _ i s).trans ?_
  rw [finish_current hs]
  rfl

/-- Without a module in scope there are no variables. -/
theorem finish_answer_variableNamed_nil (hs : i.scope = []) :
    ∃ f, (answer e (.variableNamed name)).finish i s = .ended (.fault f) i s := by
  obtain ⟨f, hcurrent⟩ := finish_current_nil (s := s) hs "addVariable"
  refine ⟨f, (Task.finish_bind (Task.current "addVariable") _ i s).trans ?_⟩
  rw [hcurrent]
  rfl

end Code

namespace Cells

variable {W : CellWords} {c : Cells} {e : Nested} {i : Interp} {s : Store} {v : Val}

/-- How code goes on from where a cell is denoted: with that cell, or not at all. -/
inductive GoesOn {α : Type} (W : CellWords) (x : Outcome α) (i : Interp) (s : Store)
    (next : Nat → Store → Outcome α) : Option (Nat × Cells) → Prop
  | cell {k : Nat} {d : Cells} {t : Store} (h : d.Stands W i t) (hx : x = next k t) :
      GoesOn W x i s next (some (k, d))
  | fault {f : Fault} (hx : x = .ended (.fault f) i s) : GoesOn W x i s next none

/-- Code without a result. -/
theorem EndsAs.only {x : Native Unit} {r : Cells × Bool}
    (h : EndsAs W ((perform e x).finish i s) r) :
    EndsAs W (((perform e (Native.only x)).finish i s).bind fun r j t =>
      (Task.pushSome r).finish j t) r := by
  unfold Native.only
  rw [finish_perform_bind]
  generalize (perform e x).finish i s = o at h
  cases h with
  | ok h => exact .ok h
  | fault h => exact .fault h

/-- A fault of a word without handlers stays a fault. -/
theorem EndsAs.guarded {label : WordLabel} {x : Task Unit} {r : Cells × Bool}
    (h : EndsAs W (x.finish i s) r) : EndsAs W ((guarded e label [] x).finish i s) r := by
  rw [finish_guarded]
  generalize x.finish i s = o at h
  cases h with
  | ok h => exact .ok h
  | @fault _ f j t h =>
    show EndsAs W ((Task.call (recover e label [] f)).finish j t) _
    rw [Task.finish_call, finish_recover_nil]
    exact .fault h

namespace Stands

/-- The variable of a name in code is the cell that the name denotes. -/
theorem here {α : Type} (h : c.Stands W i s) (name : String)
    (next : (Query.variableNamed name).Reply → Native α) :
    GoesOn W ((perform e (Native.checkVariableName name >>= fun _ =>
        .ask (.variableNamed name) next)).finish i s) i s
      (fun k => (perform e (next (⟨k, name⟩ : Ref))).finish i) (c.here? name) := by
  unfold Cells.here?
  rw [finish_perform_bind, finish_checkVariableName]
  cases hn : Text.startsWith name "__" with
  | true => exact .fault rfl
  | false =>
    rw [if_neg Bool.false_ne_true, if_neg Bool.false_ne_true, Outcome.bind_ok, finish_perform_ask]
    cases hs : c.scope with
    | nil =>
      obtain ⟨f, hf⟩ := finish_answer_variableNamed_nil (h.interp.scope.trans hs)
      rw [hf]
      exact .fault rfl
    | cons m outer =>
      obtain ⟨hk, ht⟩ := h.named (h.sound.scope m (hs ▸ List.mem_cons_self)) hn
      rw [finish_answer_variableNamed (h.interp.scope.trans hs), hk]
      exact .cell ht rfl

theorem target {α : Type} (h : c.Stands W i s) (v : Val) (next : Nat → Native α) :
    GoesOn W ((perform e (Native.variableCell v >>= next)).finish i s) i s
      (fun k => (perform e (next k)).finish i) (c.target? v) := by
  unfold Cells.target?
  split
  · exact .cell h rfl
  · rename_i name
    have hcode : Native.variableCell (.str name) >>= next =
        Native.checkVariableName name >>= fun _ =>
          .ask (.variableNamed name) fun r => next (Ref.id r) :=
      Native.bind_assoc_eq (Native.checkVariableName name) _ next
    rw [hcode]
    exact h.here name fun r => next (Ref.id r)
  · rename_i hr hs
    have hcode : ∃ f, Native.variableCell v >>= next = .fail f := by
      cases v with
      | variableRef r => exact absurd rfl (hr r)
      | str name => exact absurd rfl (hs name)
      | _ => exact ⟨_, rfl⟩
    obtain ⟨f, hcode⟩ := hcode
    rw [hcode]
    exact .fault rfl

theorem create (h : c.Stands W i s) (vs : List Val) :
    EndsAs W ((perform e (Native.createVariables vs)).finish i s) (c.create vs) := by
  induction vs generalizing c s with
  | nil => exact .ok h
  | cons v vs ih =>
    unfold Cells.create
    split
    · rename_i he
      cases he
    · rename_i name vs' he
      cases he
      have hgo := h.here (e := e) name fun _ => Native.createVariables vs
      show EndsAs W ((perform e (Native.checkVariableName name >>= fun _ =>
        .ask (.variableNamed name) fun _ => Native.createVariables vs)).finish i s) _
      generalize c.here? name = o at hgo
      cases hgo with
      | cell ht hx => exact hx ▸ ih ht
      | fault hx => exact hx ▸ .fault h
    · rename_i v' vs' hs he
      cases he
      have hcode : ∃ f, Native.createVariables (v :: vs) = .fail f := by
        cases v with
        | str name => exact absurd rfl (hs name)
        | _ => exact ⟨_, rfl⟩
      obtain ⟨f, hcode⟩ := hcode
      rw [hcode]
      exact .fault h

/-! ## Words -/

/-- Code that goes on with the cell of an operand, and what it leaves. -/
theorem onCell (h : c.Stands W i s) (hv : v.RefersBelow c.count) (next : Nat → Native (Option Val))
    (f : Nat → Cells → Cells)
    (hnext : ∀ {k d t}, d.Stands W i t → k < d.count → c.count ≤ d.count →
      EndsAs W (((perform e (next k)).finish i t).bind fun r j u => (Task.pushSome r).finish j u)
        (f k d, true)) :
    EndsAs W (((perform e (Native.variableCell v >>= next)).finish i s).bind fun r j u =>
      (Task.pushSome r).finish j u) (c.onCell v f) := by
  have hgo := h.target (e := e) v next
  unfold Cells.onCell
  cases hc : c.target? v with
  | none =>
    rw [hc] at hgo
    cases hgo with
    | fault hx => exact hx ▸ .fault h
  | some kd =>
    obtain ⟨k, d⟩ := kd
    rw [hc] at hgo
    obtain ⟨hsteps, hk⟩ := Steps.target h.sound hv hc
    cases hgo with
    | cell ht hx => exact hx ▸ hnext ht hk hsteps.before.count

/-- The call of a word of the core vocabulary on enough operands. -/
theorem finish_call (h : c.Stands W i s) {u : CellWord} {below : List Val} (inputs : List Val)
    (hn : inputs.length = u.inputs) (hs : c.stack.values = inputs.reverse ++ below) :
    (u.call e).finish i s =
      ((perform e (u.code inputs .empty)).finish { i with stack := ⟨below⟩ } s).bind
        fun r j t => (Task.pushSome r).finish j t := by
  have hstack : i.stack = .ofList (below.reverse ++ inputs) := by
    rw [h.interp.stack, OperandStack.ofList, List.reverse_append, List.reverse_reverse, ← hs]
  have hbelow : OperandStack.ofList below.reverse = ⟨below⟩ := by
    rw [OperandStack.ofList, List.reverse_reverse]
  have hsplit : i.stack.splitOptions false = (.empty, .ofList (below.reverse ++ inputs)) :=
    congrArg (Prod.mk Options.empty) hstack
  rw [CellWord.call, finish_callNative_supplied hn hsplit, hbelow]

theorem finish_call_short (h : c.Stands W i s) {u : CellWord}
    (hn : c.stack.values.length < u.inputs) :
    EndsAs W ((u.call e).finish i s) (c, false) := by
  rw [← h.interp.stack] at hn
  rw [CellWord.call, finish_callNative_short hn]
  exact .fault h

theorem creating (h : c.Stands W i s) :
    EndsAs W ((CellWord.create.call e).finish i s) c.creating := by
  unfold Cells.creating
  split
  · rename_i hs
    exact h.finish_call_short (u := .create) (by rw [hs]; exact Nat.one_pos)
  · rename_i rest hs
    rw [h.finish_call [.null] (u := .create) rfl hs]
    exact .ok (h.pop hs).1
  · rename_i names rest hs
    rw [h.finish_call [.array names] (u := .create) rfl hs]
    exact ((h.pop hs).1.create names).only
  · rename_i v rest hnull harray hs
    have hcode : ∃ f, CellWord.create.code [v] .empty = .fail f := by
      cases v with
      | null => exact (hnull rfl).elim
      | array names => exact (harray names rfl).elim
      | _ => exact ⟨_, rfl⟩
    obtain ⟨f, hcode⟩ := hcode
    rw [h.finish_call [v] (u := .create) rfl hs, hcode]
    exact .fault (h.pop hs).1

theorem storing (h : c.Stands W i s) (leave : Bool) :
    EndsAs W (((cond leave CellWord.storeBack .store).call e).finish i s) (c.storing leave) := by
  have hinputs : (cond leave CellWord.storeBack .store).inputs = 2 := by cases leave <;> rfl
  unfold Cells.storing
  split
  · rename_i target v rest hs
    obtain ⟨htarget, ht⟩ := h.pop hs
    obtain ⟨hrest, hv⟩ := htarget.pop rfl
    have hcode : (cond leave CellWord.storeBack .store).code [v, target] .empty =
        Native.variableCell target >>= fun k =>
          .ask (.store k v) fun _ => .done (if leave then some v else none) := by
      cases leave with
      | true => rfl
      | false => exact Native.bind_assoc_eq (Native.variableCell target) _ _
    rw [h.finish_call [v, target] hinputs.symm hs, hcode]
    refine hrest.onCell ht _ _ fun {k d t} hd hk hle => ?_
    have hput := hd.put hk (hv.mono hle)
    cases leave with
    | true => exact .ok (hput.push (hv.mono hle))
    | false => exact .ok hput
  · rename_i hs
    refine h.finish_call_short ?_
    rw [hinputs]
    cases hvs : c.stack.values with
    | nil => exact Nat.two_pos
    | cons target below =>
      cases below with
      | nil => exact Nat.one_lt_two
      | cons v rest => exact (hs target v rest hvs).elim

theorem fetching (h : c.Stands W i s) :
    EndsAs W ((CellWord.fetch.call e).finish i s) c.fetching := by
  unfold Cells.fetching
  split
  · rename_i hs
    exact h.finish_call_short (u := .fetch) (by rw [hs]; exact Nat.one_pos)
  · rename_i target rest hs
    obtain ⟨hrest, ht⟩ := h.pop hs
    rw [h.finish_call [target] (u := .fetch) rfl hs]
    refine hrest.onCell ht (fun k => .ask (.fetch k) fun v => .done (some v)) _
      fun {k d t} hd _ _ => ?_
    have hpush := hd.push (hd.sound.value k)
    rw [← hd.store.fetch k] at hpush ⊢
    exact .ok hpush

theorem constant (h : c.Stands W i s) (label : WordLabel) (hv : v.RefersBelow c.count) :
    EndsAs W ((execute e (.constant label v)).finish i s) (c.push v, true) := by
  rw [execute]
  exact .ok (h.push hv)

/-- What a word does that is known. -/
theorem act (h : c.Stands W i s) {u : CellWord} {w : Word} {r : Cells × Bool}
    (hd : CellWord.Describes (some u) (some w)) (hr : c.act u = some r) :
    EndsAs W ((execute e w).finish i s) r := by
  have hu : u ≠ .other := by
    rintro rfl
    cases hr
  obtain ⟨label, hw⟩ := hd.exists_word hu
  cases hw
  rw [execute]
  refine EndsAs.guarded (x := u.call e) ?_
  cases u with
  | create => exact Option.some.inj hr ▸ h.creating
  | store => exact Option.some.inj hr ▸ h.storing false
  | storeBack => exact Option.some.inj hr ▸ h.storing true
  | fetch => exact Option.some.inj hr ▸ h.fetching
  | other => exact (hu rfl).elim

/-! ## Names -/

/-- What a module finds under a name is its own word, else a reference to its variable, else an
imported word. -/
theorem findIn (h : c.Stands W i s) {m : Nat} (hm : m < c.modules) (name : String) :
    findIn? s.modules m name =
      ((s.module m).ownWord? name).or
        (((c.cell? m name).map fun k => Word.constant { name } (.variableRef ⟨k, name⟩)).or
          (importedWord? s.modules m (s.module m).imports name)) := by
  have hmodule : s.modules[m]? = some (s.module m) := by
    have hlt : m < s.modules.size := h.store.modules ▸ hm
    rw [Store.module, Array.getElem?_eq_getElem hlt, Option.getD_some]
  unfold findIn?
  rw [hmodule, ← h.store.cell]
  dsimp only
  cases (s.module m).ownWord? name with
  | some w => rfl
  | none =>
    cases (s.module m).cell? name with
    | some k => rfl
    | none => rfl

/-- A name that is no literal stands for a word that does the same, or for nothing. -/
theorem find (h : c.Stands W i s) {name : String} {r : Cells × Bool} (scope : List Nat)
    (hscope : ∀ m ∈ scope, m < c.modules) (hr : c.find W name scope = some r) :
    (∃ w, scope.findSome? (fun m => findIn? s.modules m name) = some w ∧
      ∀ {j}, c.Stands W j s → EndsAs W ((execute e w).finish j s) r) ∨
    (scope.findSome? (fun m => findIn? s.modules m name) = none ∧ r = (c, false)) := by
  induction scope with
  | nil =>
    cases hr
    exact .inr ⟨rfl, rfl⟩
  | cons m outer ih =>
    obtain ⟨hm, houter⟩ := List.forall_mem_cons.mp hscope
    have hown := h.store.own m name
    have himported := h.store.imported m name
    unfold Cells.find at hr
    rw [List.findSome?_cons, h.findIn hm]
    split at hr
    · rename_i u hu
      rw [hu] at hown
      obtain ⟨w, hw⟩ := hown.exists_some
      rw [hw] at hown ⊢
      exact .inl ⟨w, rfl, fun hj => hj.act hown hr⟩
    · rename_i k hu hk
      rw [hu] at hown
      rw [hown.eq_none, hk]
      cases hr
      refine .inl ⟨_, rfl, fun hj => hj.constant _ fun r hr => ?_⟩
      cases hr
      exact h.sound.cell hk
    · rename_i u hu hk himp
      rw [hu] at hown
      rw [himp] at himported
      obtain ⟨w, hw⟩ := himported.exists_some
      rw [hw] at himported
      rw [hown.eq_none, hk, hw]
      exact .inl ⟨w, rfl, fun hj => hj.act himported hr⟩
    · rename_i hu hk himp
      rw [hu] at hown
      rw [himp] at himported
      rw [hown.eq_none, hk, himported.eq_none]
      exact ih houter hr

/-! ## Brackets and blocks -/

theorem openBracket (h : c.Stands W i s) : EndsAs W ((execute e .openArray).finish i s)
    ({ c with marks := c.stack.depth :: c.marks }, true) := by
  have hmarks : i.stack.depth :: i.marks = c.stack.depth :: c.marks := by
    rw [h.interp.stack, h.interp.marks]
  rw [execute]
  exact .ok (h.onMarks hmarks)

theorem closeBracket (h : c.Stands W i s) :
    EndsAs W ((execute e .closeArray).finish i s) c.closeArray := by
  rw [execute]
  unfold Wordstack.closeArray Cells.closeArray
  rw [Task.finish_bind, Task.finish_interp, Outcome.bind_ok, h.interp.marks, h.interp.stack]
  cases hmarks : c.marks with
  | nil => exact .fault h
  | cons mark marks =>
    have hrest := h.onMarks (Eq.refl marks)
    dsimp only
    split
    · exact .fault hrest
    · have hbelow : ∀ v ∈ (c.stack.popAbove mark).2.values, v.RefersBelow c.count := fun v hv =>
        h.sound.stack v (List.mem_of_mem_drop hv)
      exact .ok ((hrest.onStack hbelow).push fun r hr => by cases hr)

theorem openBlock (h : c.Stands W i s) (name : String) :
    EndsAs W ((execute e (.openModule name)).finish i s) (c.openBlock name) := by
  rw [execute]
  unfold openModule Cells.openBlock
  split
  · exact .ok (h.onScope (congrArg₂ List.cons h.interp.app h.interp.scope)
      (List.forall_mem_cons.mpr ⟨h.sound.app, h.sound.scope⟩))
  · cases hscope : c.scope with
    | nil =>
      obtain ⟨f, hf⟩ := finish_current_nil (s := s) (h.interp.scope.trans hscope) "children"
      rw [Task.finish_bind, hf]
      exact .fault h
    | cons m outer =>
      have hm : m < c.modules := h.sound.scope m (hscope ▸ List.mem_cons_self)
      rw [Task.finish_bind, finish_current (h.interp.scope.trans hscope), Outcome.bind_ok,
        Task.finish_bind, Task.finish_view, Outcome.bind_ok, h.store.child]
      dsimp only
      cases hchild : c.child? m name with
      | some child =>
        rw [← hscope]
        exact .ok (h.onScope (congrArg (child :: ·) h.interp.scope)
          (List.forall_mem_cons.mpr ⟨h.sound.child hchild, h.sound.scope⟩))
      | none =>
        have hadd := h.addChild hm hchild
          (if m = i.app then Json.setField i.registered name s.modules.size else i.registered)
        rw [← hscope]
        exact .ok (hadd.onScope (congrArg₂ List.cons h.store.modules h.interp.scope)
          (List.forall_mem_cons.mpr ⟨Nat.lt_succ_self _, hadd.sound.scope⟩))

theorem closeBlock (h : c.Stands W i s) :
    EndsAs W ((execute e .closeModule).finish i s) c.closeBlock := by
  rw [execute]
  unfold closeModule Cells.closeBlock
  rw [Task.finish_bind, Task.finish_interp, Outcome.bind_ok, h.interp.scope]
  split
  · exact .fault h
  · rename_i hlength
    exact .ok (h.onScope (congrArg List.tail h.interp.scope) fun m hm =>
      h.sound.scope m (List.mem_of_mem_tail hm))

/-! ## Tokens -/

theorem dispatching (h : c.Stands W i s) (w : Word) (l : Option Location) :
    c.Stands W (i.dispatching w l) s :=
  h.placed i.inputs l i.previous
    (if w.isProfiled then i.profile.count w.qualifiedName else i.profile)

theorem moved (h : c.Stands W i s) (inputs : List String) (call previous : Option Location) :
    c.Stands W (i.moved inputs call previous) s :=
  h.placed inputs call previous i.profile

end Stands

/-- A token that is handled as a program does it. -/
theorem EndsAs.readToken {t : Token} {r : Cells × Bool}
    (h : EndsAs W ((handleToken e t).finish i s) r) :
    EndsAs W ((Task.readToken e t).finish i s) r := by
  rw [finish_readToken]
  generalize (handleToken e t).finish i s = o at h
  cases h with
  | ok h => exact .ok (h.moved ..)
  | fault h => exact .fault h

namespace Stands

/-- A token that stands for a word comes to what that word does. -/
theorem handleWord (h : c.Stands W i s) {t : Token} {w : Word} {r : Cells × Bool}
    (hw : t.word? i s = some w)
    (hr : ∀ {j}, c.Stands W j s → EndsAs W ((execute e w).finish j s) r) :
    EndsAs W ((handleToken e t).finish i s) r := by
  rw [finish_handleToken_of_word? hw, finish_handleWord_idle h.interp.compiling, finish_dispatch]
  exact hr (h.dispatching ..)

/-- The word of a bracket of a block is executed. -/
theorem handleImmediate (h : c.Stands W i s) {w : Word} {l : Location} {r : Cells × Bool}
    (hr : ∀ {j}, c.Stands W j s → EndsAs W ((execute e w).finish j s) r) :
    EndsAs W ((Task.handOn (handleImmediate e w l)).finish i s) r := by
  unfold Wordstack.handleImmediate
  rw [Task.finish_handOn, Task.finish_bind, Task.finish_update, Outcome.bind_ok, h.interp.compiling,
    if_neg Bool.false_ne_true, Task.finish_call, finish_dispatch]
  exact hr (h.dispatching ..)

theorem word (h : c.Stands W i s) {t : Token} {r : Cells × Bool} (hk : t.kind = .word)
    (hr : c.word W t.text = some r) : EndsAs W ((handleToken e t).finish i s) r := by
  have hresolve : ∀ l, (i.resolve s t.text l).toOption =
      ((W.literal t.text).map (Word.constant { name := t.text })).or
        (c.scope.findSome? fun m => findIn? s.modules m t.text) := fun l => by
    rw [Interp.toOption_resolve, h.interp.literal, h.interp.scope]
  have hword : t.word? i s = (i.resolve s t.text none).toOption := by
    unfold Token.word?
    rw [hk]
  unfold Cells.word at hr
  split at hr
  · rename_i v hv
    cases hr
    rw [hresolve, hv] at hword
    exact h.handleWord hword fun hj =>
      hj.constant _ (Val.refersBelow_of_isSerializable (W.literal_isSerializable hv))
  · rename_i hv
    rw [hv, Option.map_none, Option.none_or] at hresolve
    obtain ⟨w, hw, hexecute⟩ | ⟨hnone, rfl⟩ := h.find c.scope h.sound.scope hr
    · exact h.handleWord (hword.trans ((hresolve none).trans hw)) hexecute
    · have hunknown := (hresolve (some t.location)).trans hnone
      cases hf : i.resolve s t.text (some t.location) with
      | ok w =>
        rw [hf] at hunknown
        cases hunknown
      | error f =>
        rw [finish_handleToken_unknown hk hf]
        exact .fault h

theorem readToken (h : c.Stands W i s) {t : Token} {r : Cells × Bool} (hr : c.token W t = some r) :
    EndsAs W ((Task.readToken e t).finish i s) r := by
  refine EndsAs.readToken ?_
  have hwords : ∀ {w}, t.word? i s = some w →
      (∀ {j}, c.Stands W j s → EndsAs W ((execute e w).finish j s) r) →
      EndsAs W ((handleToken e t).finish i s) r := h.handleWord
  unfold Token.word? at hwords
  unfold Cells.token at hr
  cases hk : t.kind with
  | str | dotSymbol =>
    rw [hk] at hr hwords
    cases hr
    exact hwords rfl fun hj => hj.constant _ (Val.refersBelow_of_isSerializable rfl)
  | comment =>
    rw [hk] at hr
    cases hr
    rw [finish_handleToken_comment hk]
    exact .ok h
  | eos =>
    rw [hk] at hr
    cases hr
    rw [finish_handleToken_eos hk h.interp.compiling]
    exact .ok h
  | startArray =>
    rw [hk] at hr hwords
    cases hr
    exact hwords rfl openBracket
  | endArray =>
    rw [hk] at hr hwords
    cases hr
    exact hwords rfl closeBracket
  | startModule =>
    rw [hk] at hr
    cases hr
    unfold handleToken
    rw [hk]
    exact h.handleImmediate fun hj => hj.openBlock t.text
  | endModule =>
    rw [hk] at hr
    cases hr
    unfold handleToken
    rw [hk]
    exact h.handleImmediate closeBlock
  | word =>
    rw [hk] at hr
    exact h.word hk hr
  | startDef | startMemo | endDef =>
    rw [hk] at hr
    cases hr

/-! ## Runs -/

theorem readTokens (h : c.Stands W i s) {ts : List Token} {r : Cells × Bool}
    (hr : c.tokens W ts = some r) : EndsAs W ((Task.readTokens e ts).finish i s) r := by
  induction ts generalizing c i s with
  | nil =>
    cases hr
    exact .ok h
  | cons t ts ih =>
    rw [finish_readTokens_cons]
    unfold Cells.tokens at hr
    cases ht : c.token W t with
    | none =>
      rw [ht] at hr
      cases hr
    | some r' =>
      rw [ht] at hr
      have hend := h.readToken (e := e) ht
      generalize (Task.readToken e t).finish i s = o at hend
      cases hend with
      | ok hd => exact ih hd hr
      | fault hd =>
        cases hr
        exact .fault hd

theorem endRun {d : Cells} {j : Interp} {t : Store} (h : d.Stands W j t) :
    d.Stands W j.endRun t :=
  h.placed j.inputs.tail j.call j.previous j.profile

/-- A run that fails leaves no bracket and no block open that it has opened. -/
theorem failRun {d : Cells} {j : Interp} {t : Store} (hc : c.OfInterp W i) (h : d.Stands W j t) :
    (d.closed c).Stands W (j.failRun i.transient) t := by
  refine ⟨h.sound.closed c, ⟨h.interp.literal, h.interp.app, ?_, h.interp.stack, ?_, hc.compiling,
    h.interp.recovery, h.interp.pending⟩, h.store.of_eq rfl rfl rfl rfl rfl⟩
  · show Interp.outermost i.scope.length j.scope = _
    rw [hc.scope, h.interp.scope]
    rfl
  · show Interp.outermost i.marks.length j.marks = _
    rw [hc.marks, h.interp.marks]
    rfl

/-- The run of a source ends as the program does. -/
theorem run {source : String} {origin : Location} {r : Cells × Bool} (h : c.Stands W i s)
    (hin : i.inputs = []) (hr : c.run W (Scanner.start source origin).tokens = some r) :
    EndsAs W ((runSource e source origin).finish i s) r := by
  have hscans := (Scanner.start source origin).tokens_scans
  rw [finish_runSource_scans hin h.interp.pending h.interp.recovery hscans, Task.readAll,
    Task.finish_bind]
  generalize (Scanner.start source origin).tokens = read at hr hscans
  unfold Cells.run at hr
  split at hr
  · rename_i d ok hread
    have hend : EndsAs W ((Task.readTokens e read.tokens).finish
        (i.beginRun (Scanner.start source origin).input) s) (d, ok) :=
      (h.placed _ i.call i.previous i.profile).readTokens hread
    generalize (Task.readTokens e read.tokens).finish _ s = o at hend
    cases hr
    cases hend with
    | fault hd => exact .fault (hd.failRun h.interp)
    | @ok _ j t hd =>
      rw [Outcome.bind_ok]
      cases hstop : read.stop with
      | error f => exact .fault (hd.failRun h.interp)
      | ok eos =>
        rw [hstop] at hscans
        rw [Task.readStop, finish_readToken_eos hscans.kind_eos hd.interp.compiling]
        have hmoved := hd.moved j.inputs j.call (some eos.location)
        generalize j.moved j.inputs j.call (some eos.location) = k at hmoved
        show EndsAs W ((Task.finishRun true i.transient (.ok ())).finish k t) _
        unfold Task.finish
        cases hmarks : d.marks with
        | nil =>
          rw [Task.finishRun_closed fun _ => hmoved.interp.marks.trans hmarks]
          exact .ok hmoved.endRun
        | cons mark marks =>
          have hopen : k.marks ≠ [] := by
            rw [hmoved.interp.marks, hmarks]
            exact List.cons_ne_nil mark marks
          rw [Task.finishRun_open hopen]
          exact .fault (hmoved.failRun h.interp)
  · cases hr

end Stands

end Cells

/-! ## Variables -/

section Variables

variable {i : Interp} {s : Store}

/-- Variables behave as cells. The run of a source that is a program on cells ends as that program
does, without a fault or with one, and in its state: so a fetch leaves the value of the latest
store to the cell, a text denotes the cell of that name in the module that is current then, and a
bare name stands for a reference to the innermost cell of that name. What a name denotes it denotes
ever after, whatever is created again; what holds of cells (`Cells.Laws`) holds of these; and no
module has a variable of a reserved name. -/
theorem variables_behave_as_cells (depth : Nat) {W : CellWords} {c d : Cells} {ok : Bool}
    {source : String} {origin : Location} (h : c.Stands W i s) (hin : i.inputs = [])
    (hrun : c.run W (Scanner.start source origin).tokens = some (d, ok)) :
    ∃ r j t, (runSource (nested depth) source origin).finish i s = .ended r j t ∧
      (r = .ok () ∧ ok = true ∨ (∃ f, r = .fault f) ∧ ok = false) ∧
      d.Stands W j t ∧ j.inputs = [] ∧ c.Before d ∧ d.Laws W ∧
      ∀ m name k, (t.module m).cell? name = some k → Text.startsWith name "__" = false := by
  have hbefore : c.Before d := (Cells.Steps.run h.sound hrun).before
  have hend := h.run (e := nested depth) hin hrun
  generalize ho : (runSource (nested depth) source origin).finish i s = o at hend
  have hinputs : ∀ {r j t}, o = .ended r j t → r ≠ .exhausted → j.inputs = [] := fun he hr =>
    (Call.finish_keeps (.run source origin) (Invariant.trivial 0) trivial (ho.trans he) hr).1.trans
      hin
  have hreserved : ∀ {j t}, d.Stands W j t → ∀ m name k, (t.module m).cell? name = some k →
      Text.startsWith name "__" = false := fun ht m name k hk =>
    ht.sound.unreserved ((ht.store.cell m name).symm.trans hk)
  cases hend with
  | ok ht =>
    exact ⟨_, _, _, rfl, .inl ⟨rfl, rfl⟩, ht, hinputs rfl Result.ok_ne_exhausted, hbefore,
      ht.sound.laws W, hreserved ht⟩
  | fault ht =>
    exact ⟨_, _, _, rfl, .inr ⟨⟨_, rfl⟩, rfl⟩, ht, hinputs rfl Result.fault_ne_exhausted, hbefore,
      ht.sound.laws W, hreserved ht⟩

/-- A variable of a block shadows one of the same name outside, which a reference that was taken
before still denotes. -/
def shadowing : String :=
  "[\"x\" \"z\"] VARIABLES 1 \"x\" ! \x7bm x 2 \"x\" ! \x7d @ \x7bm x @ \x7d " ++
    "[\"x\"] VARIABLES x @ z @"

/-- Whether values are the given integers, and null for none. -/
def Val.areInts : List Val → List (Option Int) → Bool
  | [], [] => true
  | .null :: vs, none :: ns => areInts vs ns
  | .int m :: vs, some n :: ns => m == n && areInts vs ns
  | _, _ => false

theorem Val.of_areInts {vs : List Val} {ns : List (Option Int)} (h : areInts vs ns = true) :
    vs = ns.map fun n => n.elim .null .int := by
  fun_induction areInts vs ns with
  | case1 => rfl
  | case2 vs ns ih => exact congrArg (Val.null :: ·) (ih h)
  | case3 m vs n ns ih =>
    obtain ⟨hm, hrest⟩ := Bool.and_eq_true_iff.mp h
    exact congrArg₂ List.cons (congrArg Val.int (beq_iff_eq.mp hm)) (ih hrest)
  | case4 => cases h

theorem variables_behave_as_cells_shadowing : ∃ i s d j t,
    Interp.standard .core .emptyCore [] = .ok (i, s) ∧
    (Cells.of i s).Stands (CellWords.of i s) i s ∧ i.inputs = [] ∧
    (Cells.of i s).run (CellWords.of i s) (Scanner.start shadowing .origin).tokens =
      some (d, true) ∧
    (runSource (nested 0) shadowing .origin).finish i s = .ended (.ok ()) j t ∧
    j.stack.values = [.null, .int 1, .int 2, .int 1] ∧ d.Stands (CellWords.of i s) j t ∧
    j.inputs = [] ∧ (Cells.of i s).Before d ∧ d.Laws (CellWords.of i s) ∧
    ∀ m name k, (t.module m).cell? name = some k → Text.startsWith name "__" = false := by
  have hrun : ((Interp.standard .core .emptyCore []).toOption.any fun p =>
      ((Cells.of p.1 p.2).run (CellWords.of p.1 p.2) (Scanner.start shadowing .origin).tokens).any
        fun r => r.2 && Val.areInts r.1.stack.values [none, some 1, some 2, some 1]) = true := by
    decide +kernel
  obtain ⟨⟨i, s⟩, hmade, hrun⟩ := Except.exists_of_any hrun
  obtain ⟨⟨d, ok⟩, hd, hok⟩ := (Option.any_eq_true ..).mp hrun
  obtain ⟨rfl, hvalues⟩ := Bool.and_eq_true_iff.mp hok
  have hstands := Cells.stands_of_core hmade
  have hin : i.inputs = [] := (Interp.made_of_standard hmade).new.inputs
  obtain ⟨r, j, t, hfinish, ⟨rfl, -⟩ | ⟨-, hfalse⟩, ht, hrest⟩ :=
    variables_behave_as_cells 0 hstands hin hd
  · refine ⟨i, s, d, j, t, hmade, hstands, hin, hd, hfinish, ?_, ht, hrest⟩
    rw [ht.interp.stack]
    exact Val.of_areInts hvalues
  · cases hfalse

end Variables

end Wordstack
