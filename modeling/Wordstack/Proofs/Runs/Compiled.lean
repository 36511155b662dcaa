import Wordstack.Proofs.Machine.Calls
import Wordstack.Proofs.Machine.Redefinition
import Wordstack.Proofs.Machine.Unaltered
import Wordstack.Proofs.Runs.Definition

/-!
# Bodies that are read and bodies that are compiled
-/

namespace Wordstack

/-! ## Words of a body -/

namespace Redefinition

/-- The execution of a word alters nothing, and what is redefined makes no difference to it. -/
structure Admits (d : Redefinition) (e : Nested) (w : Word) (l : Location) (i : Interp)
    (s : Store) : Prop where
  unaltered : ∀ j t, (dispatch e w (some l)).finish i s = .ended (.ok ()) j t → Unaltered i s j t
  indifferent : d.Indifferent e w i s

/-- Wherever reading the tokens comes to a word that is no literal, its execution alters nothing,
and what is redefined makes no difference to it. -/
def Discreet (d : Redefinition) (e : Nested) (ts : List Token) (i : Interp) (s : Store) : Prop :=
  ∀ before t after, ts = before ++ t :: after → t.kind = .word → i.literal? t.text = none →
    ∀ w, i.resolve s t.text none = .ok w →
      ∀ j u, (Task.readTokens e before).finish i s = .ended (.ok ()) j u →
        d.Admits e w t.location j u

variable {d : Redefinition} {e : Nested} {i j : Interp} {s u : Store} {t : Token} {ts : List Token}
  {w : Word}

/-- Words that are still, quiet and blind are admitted everywhere. -/
theorem Admits.of_still (hs : w.Asks Query.isStill) (hq : w.Asks Query.isQuiet) (hb : w.Blind)
    (l : Location) : d.Admits e w l i s :=
  ⟨fun _ _ h => .of_still hs h, d.indifferent_of_quiet e hb hq i s⟩

theorem Discreet.of_still (h : ∀ t ∈ ts, t.kind = .word → i.literal? t.text = none →
    ∀ w, i.resolve s t.text none = .ok w →
      w.Asks Query.isStill ∧ w.Asks Query.isQuiet ∧ w.Blind) : d.Discreet e ts i s := by
  rintro before t after rfl hk hlit w hw j u -
  obtain ⟨hs, hq, hb⟩ := h t (by simp) hk hlit w hw
  exact .of_still hs hq hb t.location

/-- Where all words are still, quiet and blind, all bodies are discreet. -/
theorem Discreet.of_words (h : ∀ m ∈ s.modules, ∀ w ∈ m.words,
    w.Asks Query.isStill ∧ w.Asks Query.isQuiet ∧ w.Blind) : d.Discreet e ts i s :=
  .of_still fun _ _ _ _ _ hw => i.of_resolve h (fun _ _ => by trivial) hw

/-- The word of the first token, which is a constant or a bracket unless it was looked up. -/
theorem Discreet.head (h : d.Discreet e (t :: ts) i s) (hw : t.word? i s = some w) :
    d.Admits e w t.location i s := by
  unfold Token.word? at hw
  cases hk : t.kind with
  | word =>
    rw [hk] at hw
    cases hlit : i.literal? t.text with
    | some v =>
      have hv : w = .constant { name := t.text } v := by
        rw [Interp.toOption_resolve, hlit] at hw
        exact (Option.some.inj hw).symm
      exact .of_still (hv ▸ trivial) (hv ▸ trivial) (hv ▸ trivial) t.location
    | none =>
      exact h [] t ts rfl hk hlit w (eq_ok_of_toOption_eq_some hw) i s rfl
  | str | dotSymbol | startArray | endArray =>
    rw [hk] at hw
    obtain rfl := Option.some.inj hw
    exact .of_still (by trivial) (by trivial) (by trivial) t.location
  | _ =>
    rw [hk] at hw
    cases hw

theorem Discreet.tail (h : d.Discreet e (t :: ts) i s)
    (hread : (Task.readToken e t).finish i s = .ended (.ok ()) j u) (hn : SameNames i s j u) :
    d.Discreet e ts j u := by
  intro before t' after hts hk hlit w hw k v hbefore
  refine h (t :: before) t' after (by rw [hts, List.cons_append]) hk ?_ w ?_ k v ?_
  · rw [← hn.literal?_eq]
    exact hlit
  · refine eq_ok_of_toOption_eq_some ?_
    rw [← hn.toOption_resolve t'.text none none, hw]
    rfl
  · rw [finish_readTokens_cons, hread, Outcome.bind_ok]
    exact hbefore

end Redefinition

/-- Names stand for the same after a word that alters nothing. -/
theorem Unaltered.sameNames {depth : Nat} {w : Word} {l : Option Location} {i j : Interp}
    {s t : Store} (h : Unaltered i s j t)
    (hrun : (dispatch (nested depth) w l).finish i s = .ended (.ok ()) j t) :
    SameNames i s j t := by
  have hreaders : Invariant 0 fun k => k.readers = i.readers :=
    ⟨fun h hc => by cases hc <;> exact h, fun _ h => h, fun h _ => h, fun _ h _ => h⟩
  exact ⟨finish_dispatch_keeps hreaders rfl hrun Result.ok_ne_exhausted, h.scope, h.modules⟩

/-! ## Entries beside tokens -/

/-- What becomes of the end of an entry of a definition that is called at `call`. -/
def finishEntry (e : Nested) (name : String) (call : Option Location) (l : Location)
    (rest : List (Word × Location)) : Except Fault Unit → Interp → Store → Outcome Unit
  | .ok _, i, s => (executeBody e name call rest).finish i s
  | .error f, i, s =>
    if f.isStop then .ended (.fault f) i s
    else
      .ended (.fault (.wordExecution ("Error executing " ++ name) (some f) call (some l))) i s

theorem finish_executeBody_cons {e : Nested} {name : String} {call : Option Location} {w : Word}
    {l : Location} {rest : List (Word × Location)} {i : Interp} {s : Store} :
    (executeBody e name call ((w, l) :: rest)).finish i s =
      ((dispatch e w (some l)).finish i s).attempt.bind (finishEntry e name call l rest) := by
  rw [executeBody, Task.finish_bind, Task.finish_attempt, Task.finish_call]
  refine congrArg (Outcome.bind _) (funext fun outcome => funext fun j => funext fun t => ?_)
  cases outcome with
  | ok => rfl
  | error f =>
    simp only [finishEntry]
    split
    · rfl
    · rfl

/-- How the tokens of a body end, and the entries of the definition that is called at `call`. Both
end alike, but the definition wraps the faults of its entries unless they are stops. -/
inductive BodyEnds (d : Redefinition) (call : Option Location) :
    Outcome Unit → Outcome Unit → Prop
  | ok {i j : Interp} {s t : Store} (hb : d.Beside i s j t) (hc : i.compiling = false) :
      BodyEnds d call (.ended (.ok ()) i s) (.ended (.ok ()) j t)
  | stop {f g : Fault} {i j : Interp} {s t : Store} (hf : f.blur = g.blur)
      (hb : d.Beside i s j t) : BodyEnds d call (.ended (.fault f) i s) (.ended (.fault g) j t)
  | wrapped {f g : Fault} {l : Location} {i j : Interp} {s t : Store} (hf : f.blur = g.blur)
      (hb : d.Beside i s j t) :
      BodyEnds d call (.ended (.fault f) i s)
        (.ended (.fault (.wordExecution ("Error executing " ++ d.name) (some g) call (some l))) j t)
  | exhausted {i j : Interp} {s t : Store} :
      BodyEnds d call (.ended .exhausted i s) (.ended .exhausted j t)
  | hung {s t : Store} : BodyEnds d call (.hung s) (.hung t)

section Body

variable {d : Redefinition} {depth : Nat} {call : Option Location} {i j : Interp} {s t : Store}

/-- One token and its entry: both dispatch the same word, and go on alike if that has ended. -/
theorem BodyEnds.step {e : Nested} {w : Word} {u : Token} {ts : List Token} {l : Location}
    {rest : List (Word × Location)} (hw : u.word? i s = some w) (hc : i.compiling = false)
    (hd : d.Indifferent e w i s) (h : d.Beside i s j t)
    (hrest : ∀ {i' j' : Interp} {s' t' : Store},
      (dispatch e w (some u.location)).finish i s = .ended (.ok ()) i' s' → d.Beside i' s' j' t' →
      BodyEnds d call
        ((Task.readTokens e ts).finish (i'.moved i'.inputs i'.call (some u.location)) s')
        ((executeBody e d.name call rest).finish j' t')) :
    BodyEnds d call ((Task.readTokens e (u :: ts)).finish i s)
      ((executeBody e d.name call ((w, l) :: rest)).finish j t) := by
  rw [finish_readTokens_cons, finish_readToken, finish_handleToken_of_word? hw,
    finish_handleWord_idle hc, finish_executeBody_cons]
  have hends := hd (some u.location) (some l) h
  generalize hx : (dispatch e w (some u.location)).finish i s = x at hends hrest
  generalize (dispatch e w (some l)).finish j t = y at hends
  cases hends with
  | ok _ hb => exact hrest rfl hb
  | fault hf hb =>
    simp only [Outcome.attempt, Outcome.bind, finishEntry]
    split
    · exact .stop hf hb
    · exact .wrapped hf hb
  | exhausted => exact .exhausted
  | hung => exact .hung

/-- Reading the tokens of a body, and executing the entries that tokens of the same kinds and texts
were compiled to. -/
theorem finish_readTokens_compiled {ts us : List Token}
    (hpairs : us.map Token.pair = ts.map Token.pair) (hts : ∀ t ∈ ts, t.Compiles i s)
    (hd : d.Discreet (nested depth) ts i s) (hc : i.compiling = false) (h : d.Beside i s j t) :
    BodyEnds d call ((Task.readTokens (nested depth) ts).finish i s)
      ((executeBody (nested depth) d.name call (compiled i s us)).finish j t) := by
  induction ts generalizing us i s j t with
  | nil =>
    obtain rfl := List.map_eq_nil_iff.mp hpairs
    exact .ok h hc
  | cons u ts ih =>
    obtain ⟨u', us, rfl, hpair, hpairs⟩ := List.map_eq_cons_iff.mp hpairs
    obtain ⟨hu, hrest⟩ := List.forall_mem_cons.mp hts
    rcases hu.cases with ⟨w, hw⟩ | ⟨hk, hnone⟩
    · obtain ⟨hunaltered, hindifferent⟩ := hd.head hw
      rw [show compiled i s (u' :: us) = (w, u'.location) :: compiled i s us by
        simp [compiled, Token.word?_of_pair hpair, hw]]
      refine .step hw hc hindifferent h fun {i' j' s' t'} hrun hb => ?_
      have hun := hunaltered _ _ hrun
      have hn : SameNames i s (i'.moved i'.inputs i'.call (some u.location)) s' :=
        let h := hun.sameNames hrun; ⟨h.readers, h.scope, h.modules⟩
      have hread : (Task.readToken (nested depth) u).finish i s =
          .ended (.ok ()) (i'.moved i'.inputs i'.call (some u.location)) s' := by
        rw [finish_readToken, finish_handleToken_of_word? hw, finish_handleWord_idle hc, hrun,
          Outcome.bind_ok]
      rw [← hn.compiled_eq]
      refine ih hpairs (hn.compiles hrest) (hd.tail hread hn) ?_ (hb.place _ _ _ _)
      exact (congrArg Prod.fst hun.compileState).trans hc
    · have hn : SameNames i s (i.moved i.inputs i.call (some u.location)) s := ⟨rfl, rfl, rfl⟩
      have hread : (Task.readToken (nested depth) u).finish i s =
          .ended (.ok ()) (i.moved i.inputs i.call (some u.location)) s := by
        rw [finish_readToken, finish_handleToken_comment hk, Outcome.bind_ok]
      rw [show compiled i s (u' :: us) = compiled i s us by
        simp [compiled, Token.word?_of_pair hpair, hnone], ← hn.compiled_eq,
        finish_readTokens_cons, hread]
      exact ih hpairs (hn.compiles hrest) (hd.tail hread hn) hc (h.place _ _ _ _)

end Body

end Wordstack
