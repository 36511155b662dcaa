import Wordstack.Proofs.Bridge.Transparency
import Wordstack.Proofs.Runs.Definition
import Wordstack.Proofs.Runs.Trying

/-!
# Sources inside of a word

Core's word for sources runs the text on top of the stack inside of the run that called it.

- **Two texts around** (`Likeness.amid`, `alike_runScanner`): a source is read in the same way inside
  of one text and inside of two, but for places.
- **The word** (`finish_dispatch_interpret`): dispatching it is reading the source; what the source
  leaves open is seen by the run around it.
- **Agreement** (`InterpretAgrees`, `interpretAgrees_ownRun`): the run of a source and the run of the
  word end alike. On a failure the outer run puts back once more what the inner one has put back.
- **Pending modules** (`PreparesInterpret`): they are initialized at the start of the outermost run,
  on the stack that it finds.
- **Transparency** (`interpret_transparent`).
-/

namespace Wordstack

/-! ## Two texts around -/

/-- The likeness of interpreters that work inside of different texts. -/
def Likeness.amid (texts texts' : List String) : Likeness :=
  { under := texts, around := texts', loose := true, blurs := true, blind := true
    holds := Interp.Plain }

section Amid

variable {texts texts' : List String} {i j : Interp}

theorem Likeness.amid_sound (texts texts' : List String) : (Likeness.amid texts texts').Sound :=
  ⟨nofun, rfl, fun _ => rfl, nofun, Nat.zero_le 2, Interp.plain_invariant 0, fun _ _ hi => hi.2⟩

/-- Nested work inside of texts, whichever they are. -/
theorem Nested.Alike.amid (ht : texts ≠ []) (ht' : texts' ≠ []) (depth : Nat) :
    Nested.Alike (.amid texts texts') (nested depth) (nested depth) :=
  .of_le (Likeness.amid_sound texts texts') rfl (fun _ => by simp [Likeness.amid, ht, ht'])
    (Nat.le_refl depth)

/-- Where words do not differ in their places, interpreters that are alike are equal but for the
texts around and the latest places. -/
theorem Likeness.Interps.eq_moved {L : Likeness} (hi : L.Interps i j) (hr : L.relocates = false) :
    j = i.moved L.second j.call j.previous := by
  have hd : j.definition = i.definition := by
    have h := hi.definition
    rw [hr, funext OpenDefinition.blur_false, Option.map_id', Option.map_id'] at h
    exact h.symm
  rw [hi.rest, ← hi.inputs, Interp.places, hd]
  rfl

end Amid

/-! ## The code of the word -/

section Code

variable {e : Nested} {depth : Nat} {source : String} {i : Interp} {s : Store} {f : Fault}
  {stack : OperandStack}

/-- Code that only asks is the answer. -/
theorem finish_perform_query {q : Query} :
    (perform e (Native.query q)).finish i s = (answer e q).finish i s := by
  rw [Native.query, finish_perform_ask]
  cases (answer e q).finish i s with
  | hung t => rfl
  | ended r j t => cases r <;> rfl

/-- The source on top of the stack is run inside of the text that the word stands in. -/
theorem finish_perform_interpret (hin : i.inputs ≠ [])
    (hstack : i.stack = stack.push (.str source)) :
    (perform (nested (depth + 1)) Core.interpret).finish i s =
      (Task.ownRun (nested depth) false (Scanner.start source .origin)).finish
        { i with stack } s := by
  have hpop : (answer (nested (depth + 1)) .pop).finish i s =
      .ended (.ok (.str source)) { i with stack } s := finish_pop_push hstack
  have hrun : (answer (nested (depth + 1)) (.run source)).finish { i with stack } s =
      (runSource (nested depth) source .origin).finish { i with stack } s := Task.finish_call ..
  show (perform (nested (depth + 1)) (.ask .pop _)).finish i s = _
  rw [finish_perform_ask, hpop]
  show (perform (nested (depth + 1)) (.query (.run source))).finish { i with stack } s = _
  exact finish_perform_query.trans (hrun.trans (finish_runSource_inner hin))

/-- The end of the word, from how the tokens of the source have been handled. -/
def finishInterpret (label : WordLabel) (saved : Transient) :
    Except Fault Unit → Interp → Store → Outcome Unit
  | .ok _, i, s => .ended (.ok ()) i.endRun s
  | .error f, i, s => .ended (.fault (label.wrapped i.call f)) (i.failRun saved) s

/-- Dispatching the word is reading the source without checking its brackets. -/
theorem finish_dispatch_interpret {w : Word} {l : Option Location} {label : WordLabel}
    (hw : w = .direct label true Core.interpret []) (hin : i.inputs ≠ [])
    (hstack : i.stack = stack.push (.str source)) :
    (dispatch (nested (depth + 1)) w l).finish i s =
      ((runScanner (nested depth) (Scanner.start source .origin)).finish
        ({ i.dispatching w l with stack }.beginRun (Scanner.start source .origin).input) s
        ).attempt.bind (finishInterpret label i.transient) := by
  have hcode : (perform (nested (depth + 1)) Core.interpret).finish (i.dispatching w l) s =
      (Task.ownRun (nested depth) false (Scanner.start source .origin)).finish
        { i.dispatching w l with stack } s := finish_perform_interpret hin hstack
  rw [finish_dispatch_direct hw, hcode, Task.finish_ownRun]
  generalize (runScanner (nested depth) (Scanner.start source .origin)).finish
    ({ i.dispatching w l with stack }.beginRun (Scanner.start source .origin).input) s = x
  cases x with
  | hung t => rfl
  | ended r j t =>
    cases r with
    | exhausted => rfl
    | ok =>
      have hinner : false = true → j.marks = [] := nofun
      rw [Outcome.attempt_ok, Outcome.bind_ok, Outcome.bind_ok, Task.finish_finishRun_closed hinner]
      rfl
    | fault f =>
      rw [Outcome.attempt_fault, Outcome.bind_ok, Outcome.bind_ok]
      show (Task.call (recover (nested (depth + 1)) label [] f)).finish (j.failRun _) t = _
      rw [Task.finish_call, finish_recover_nil]
      rfl

/-- While executions are not counted, a word that is dispatched is only noted. -/
theorem Interp.dispatching_of_closed {w : Word} {l : Option Location}
    (h : i.profile.isOpen = false) : i.dispatching w l = { i with call := l } := by
  unfold dispatching
  rw [Profile.count_of_closed h, ite_self]

/-- Reading the word while executions are not counted. -/
theorem finish_readWord_interpret {l : Option Location} {label : WordLabel}
    (hw : (i.resolve s "INTERPRET" none).toOption = some (.direct label true Core.interpret []))
    (hclosed : i.profile.isOpen = false) (hin : i.inputs ≠ [])
    (hstack : i.stack = stack.push (.str source)) :
    (Task.readWord (nested (depth + 1)) "INTERPRET" l).finish i s =
      ((runScanner (nested depth) (Scanner.start source .origin)).finish
        ({ i with stack, call := l }.beginRun (Scanner.start source .origin).input) s
        ).attempt.bind (finishInterpret label i.transient) := by
  have hresolve : (i.resolve s "INTERPRET" l).toOption = _ :=
    ((SameNames.refl i s).toOption_resolve "INTERPRET" none l).trans hw
  unfold Task.readWord
  rw [Task.finish_bind, Task.finish_view, Outcome.bind_ok, eq_ok_of_toOption_eq_some hresolve,
    Task.finish_bind, Task.finish_lift_ok, Outcome.bind_ok, Task.finish_call,
    finish_dispatch_interpret rfl hin hstack, Interp.dispatching_of_closed hclosed]

end Code

/-! ## Agreement -/

/-- Nobody can tell the states apart but by where the latest word and the latest token stand. -/
structure Indistinct (i : Interp) (s : Store) (j : Interp) (t : Store) : Prop where
  interp : j = i.moved i.inputs j.call j.previous
  store : s.Alike t

/-- How the run of a source ends, and the run of the word that is given the source. A fault that is
neither a stop nor one of the engine is wrapped by the word, like the faults of all native code. -/
inductive InterpretAgrees : Outcome Unit → Outcome Unit → Prop
  | ok {i j s t} (h : Indistinct i s j t) : InterpretAgrees (.ended (.ok ()) i s) (.ended (.ok ()) j t)
  | fault {f g : Fault} {i j s t} (hf : f.blur = g.blur) (h : Indistinct i s j t) :
      InterpretAgrees (.ended (.fault f) i s) (.ended (.fault g) j t)
  | foreign {f g : Fault} {l i j s t} (hstop : f.isStop = false) (hengine : f.isEngine = false)
      (hf : f.blur = g.blur) (h : Indistinct i s j t) :
      InterpretAgrees (.ended (.fault f) i s)
        (.ended (.fault (.nativeWord "INTERPRET" coreName g.message (some g) l)) j t)
  /-- The source of a module that was pending has failed. -/
  | unbegun {f : Fault} {i j s t} (hs : s.Alike t) :
      InterpretAgrees (.ended (.fault f) i s) (.ended (.fault f) j t)
  | exhausted {i j s t} : InterpretAgrees (.ended .exhausted i s) (.ended .exhausted j t)
  | hung {s t} : InterpretAgrees (.hung s) (.hung t)

theorem Interp.outermost_outermost {α : Type} (n : Nat) (xs : List α) :
    outermost n (outermost n xs) = outermost n xs := by
  unfold outermost
  rw [List.drop_drop, List.length_drop]
  congr 1
  omega

/-- Putting the same things back twice is putting them back once. -/
theorem Interp.failRun_failRun (i : Interp) (saved : Transient) :
    (i.failRun saved).failRun saved =
      { i.failRun saved with inputs := i.inputs.tail.tail } := by
  unfold failRun restore
  simp only [outermost_outermost]

section Agreement

variable {depth : Nat} {source text : String} {i j : Interp} {s t : Store} {label : WordLabel}
  {saved : Transient}

section Ends

variable {k l : Interp} {u v : Store} {f g : Fault} {x y z : Outcome Unit}

/-- Where the source was read to its end on both sides, the outermost runs look for brackets that it
has left open. -/
theorem interpretAgrees_ok (hi : (Likeness.amid [source] [source, text]).Interps k l)
    (hs : u.Alike v) (hz : ReadsWord (.ended (.ok ()) l.endRun v) z) :
    InterpretAgrees ((Task.finishRun true saved (.ok ())).finish k u)
      (z.attempt.bind fun o i s => (Task.finishRun true saved o).finish i s) := by
  have hk : k.inputs = [source] := hi.fits.inputs
  obtain ⟨call, previous, rfl⟩ : ∃ call previous, l = k.moved [source, text] call previous :=
    ⟨_, _, hi.eq_moved rfl⟩
  cases hz with
  | ok previous' =>
    let outer := (k.moved [source, text] call previous).endRun.moved [text] call previous'
    have houter : outer.marks = k.marks := rfl
    show InterpretAgrees _ ((Task.finishRun true saved (.ok ())).finish outer v)
    by_cases hm : k.marks = []
    · rw [Task.finish_finishRun_closed fun _ => hm,
        Task.finish_finishRun_closed fun _ => houter.trans hm]
      refine .ok ⟨?_, hs⟩
      unfold Interp.endRun
      rw [hk]
      rfl
    · rw [Task.finish_finishRun_open hm, Task.finish_finishRun_open (houter ▸ hm)]
      refine .fault rfl ⟨?_, hs⟩
      unfold Interp.failRun
      rw [hk]
      rfl

/-- Where the source has failed on both sides, the inner run puts back what it found, and the
outermost one does so again. -/
theorem interpretAgrees_fault (hname : label.name = "INTERPRET") (hhome : label.home = some coreName)
    (hf : f.blur = g.blur) (hi : (Likeness.amid [source] [source, text]).Interps k l)
    (hs : u.Alike v) :
    InterpretAgrees (.ended (.fault f) (k.failRun saved) u)
      (.ended (.fault (label.wrapped l.call g)) ((l.failRun saved).failRun saved) v) := by
  have hk : k.inputs = [source] := hi.fits.inputs
  have hl : l = k.moved [source, text] l.call l.previous := hi.eq_moved rfl
  have hsame : Indistinct (k.failRun saved) u ((l.failRun saved).failRun saved) v := by
    refine ⟨?_, hs⟩
    rw [Interp.failRun_failRun, hl]
    unfold Interp.moved Interp.failRun
    rw [hk]
    rfl
  by_cases hpass : g.isStop = true ∨ g.isEngine = true
  · rw [WordLabel.wrapped_eq hpass]
    exact .fault hf hsame
  · obtain ⟨hstop, hengine⟩ := not_or.mp hpass
    have hstop : g.isStop = false := Bool.eq_false_iff.mpr hstop
    have hengine : g.isEngine = false := Bool.eq_false_iff.mpr hengine
    unfold WordLabel.wrapped
    rw [hstop, hengine, hname, hhome]
    exact .foreign ((Fault.isStop_eq_of_blur hf).trans hstop)
      ((Fault.isEngine_eq_of_blur hf).trans hengine) hf hsame

/-- The run of a source, and the run of the word that reads it inside of another text, when the
tokens of the source have been handled in the same way. -/
theorem interpretAgrees_of_alike (hname : label.name = "INTERPRET")
    (hhome : label.home = some coreName)
    (hxy : Outcome.Alike (.amid [source] [source, text]) (· = ·) x y)
    (hyx : Outcome.Alike (.amid [source, text] [source]) (· = ·) y x)
    (hz : ReadsWord (y.attempt.bind (finishInterpret label saved)) z) :
    InterpretAgrees (x.attempt.bind fun o i s => (Task.finishRun true saved o).finish i s)
      (z.attempt.bind fun o i s => (Task.finishRun true saved o).finish i s) := by
  cases hxy with
  | hung =>
    cases hz
    exact .hung
  | exhausted =>
    cases hyx with
    | exhausted =>
      cases hz
      exact .exhausted
  | ok _ hi hs => exact interpretAgrees_ok hi (hs.alike rfl) hz
  | @fault f g k l u v hf hi hs =>
    have hz : ReadsWord (.ended (.fault (label.wrapped l.call g)) (l.failRun saved) v) z := hz
    cases hz
    exact interpretAgrees_fault hname hhome hf.blur_eq hi (hs.alike rfl)

end Ends

/-- A source is read in the same way inside of the word and by itself. -/
theorem alike_runScanner {texts texts' : List String} (hidle : i.Idle) (hr : i.recovery = none)
    (hp : i.pending = []) (hst : Store.AlikeBut false true s t) (hin : i.inputs = texts)
    (hj : j = i.moved texts' j.call j.previous) (hne : texts ≠ []) (hne' : texts' ≠ [])
    (sc : Scanner) :
    Outcome.Alike (.amid texts texts') (· = ·) ((runScanner (nested depth) sc).finish i s)
      ((runScanner (nested depth) sc).finish j t) := by
  have hL := Likeness.amid_sound texts texts'
  have hplain : i.Plain := ⟨⟨fun _ => hidle, fun _ => hidle⟩, hr⟩
  refine (Task.Alike.runScanner hL (.amid hne hne' depth) hne sc).finish ?_ hst
  refine ⟨?_, ?_, ⟨hin, ?_, hplain, ?_⟩, nofun, ?_⟩
  · rw [hj]
    rfl
  · rw [hj]
    rfl
  · rw [hp]
    exact Nat.le_refl 0
  · rw [hidle.definition]
    exact nofun
  · rw [hj]
    rfl

/-- Where no modules are pending, the run of a source and the run of the word. -/
theorem interpretAgrees_ownRun {w : Word} (hplain : i.Plain) (hin : i.inputs = [])
    (hp : i.pending = []) (hclosed : i.profile.isOpen = false) (hst : Store.AlikeBut false true s t)
    (hw : (i.resolve t "INTERPRET" none).toOption = some w) (hcore : w.IsCore "INTERPRET")
    (source : String) :
    InterpretAgrees
      ((Task.ownRun (nested depth) true (Scanner.start source .origin)).finish i s)
      ((Task.ownRun (nested (depth + 1)) true (Scanner.start "INTERPRET" .origin)).finish
        { i with stack := i.stack.push (.str source) } t) := by
  let sc := Scanner.start source .origin
  let text := (Scanner.start "INTERPRET" .origin).input
  let called := { i with stack := i.stack.push (.str source) }.beginRun text
  obtain ⟨label, hname, hhome, rfl⟩ := hcore.of_interpret
  obtain ⟨token, htoken, hkind, htext⟩ : IsWord "INTERPRET" := ⟨_, rfl, rfl, rfl⟩
  let begun := { called with stack := i.stack, call := some token.location }.beginRun sc.input
  have hidle : i.Idle := hplain.1.2 hin
  have hbegun : begun = (i.beginRun sc.input).moved [sc.input, text] begun.call begun.previous := by
    unfold begun called Interp.beginRun Interp.moved
    rw [hin]
  -- Inside of the word and by itself, the source is read in the same way whichever comes first.
  have hxy : Outcome.Alike (.amid [sc.input] [sc.input, text]) (· = ·)
      ((runScanner (nested depth) sc).finish (i.beginRun sc.input) s)
      ((runScanner (nested depth) sc).finish begun t) := by
    have hinputs : (i.beginRun sc.input).inputs = [sc.input] := congrArg (sc.input :: ·) hin
    have hidle : (i.beginRun sc.input).Idle := hidle
    exact alike_runScanner hidle hplain.2 hp hst hinputs hbegun (List.cons_ne_nil _ _)
      (List.cons_ne_nil _ _) sc
  have hyx : Outcome.Alike (.amid [sc.input, text] [sc.input]) (· = ·)
      ((runScanner (nested depth) sc).finish begun t)
      ((runScanner (nested depth) sc).finish (i.beginRun sc.input) s) := by
    have hinputs : begun.inputs = [sc.input, text] := congrArg Interp.inputs hbegun
    have hidle : begun.Idle := hidle
    refine alike_runScanner hidle hplain.2 hp hst.symm hinputs ?_ (List.cons_ne_nil _ _)
      (List.cons_ne_nil _ _) sc
    rw [hbegun]
    unfold Interp.beginRun Interp.moved
    rw [hin]
  have hread : (Task.readWord (nested (depth + 1)) token.text (some token.location)).finish called t =
      ((runScanner (nested depth) sc).finish begun t).attempt.bind
        (finishInterpret label i.transient) := by
    have hnames : SameNames i t called t := ⟨rfl, rfl, rfl⟩
    rw [htext]
    exact finish_readWord_interpret ((hnames.toOption_resolve "INTERPRET" none none).trans hw)
      hclosed (List.cons_ne_nil _ _) rfl
  have hscanned : ReadsWord
      ((Task.readWord (nested (depth + 1)) token.text (some token.location)).finish called t)
      ((runScanner (nested (depth + 1)) (Scanner.start "INTERPRET" .origin)).finish called t) := by
    refine finish_runScanner_word htoken hkind hidle.compiling hplain.2 fun j u hj => ?_
    rw [hread] at hj
    obtain ⟨_, k, v, hk, hj⟩ | ⟨f, k, v, -, hj⟩ := Outcome.of_attempt_bind hj Result.ok_ne_exhausted
    · cases hj
      have hclosed : k.compiling = false := compiling_of_finish_runScanner hk
      exact hclosed
    · cases hj
  rw [hread] at hscanned
  rw [Task.finish_ownRun, Task.finish_ownRun]
  exact interpretAgrees_of_alike hname hhome hxy hyx hscanned

/-! ### Pending modules -/

/-- The outcome with another stack where it has ended. -/
def Outcome.onStack {α : Type} (stack : OperandStack) : Outcome α → Outcome α
  | .ended r i s => .ended r { i with stack } s
  | .hung s => .hung s

/-- The modules that are pending are initialized beside the stack, whatever is on it, and after that
the name means core's word and executions are not counted. -/
structure PreparesInterpret (depth : Nat) (i : Interp) (s : Store) : Prop where
  aside : ∀ stack, (initializePending (nested depth)).finish { i with stack } s =
    ((initializePending (nested depth)).finish i s).onStack stack
  inDepth : ∀ j t, (initializePending (nested depth)).finish i s ≠ .ended .exhausted j t
  ready : ∀ j t, (initializePending (nested depth)).finish i s = .ended (.ok ()) j t →
    j.profile.isOpen = false ∧
      ∃ w, (j.resolve t "INTERPRET" none).toOption = some w ∧ w.IsCore "INTERPRET"

theorem PreparesInterpret.of_pending_nil {w : Word} (hp : i.pending = [])
    (hclosed : i.profile.isOpen = false)
    (hw : (i.resolve s "INTERPRET" none).toOption = some w) (hcore : w.IsCore "INTERPRET") :
    PreparesInterpret depth i s := by
  have hends : (initializePending (nested depth)).finish i s = .ended (.ok ()) i s :=
    finish_initializePending_nil hp
  refine ⟨fun stack => ?_, fun j t h => ?_, fun j t h => ?_⟩
  · rw [hends]
    exact finish_initializePending_nil (i := { i with stack }) hp
  · rw [hends] at h
    cases h
  · rw [hends] at h
    cases h
    exact ⟨hclosed, w, hw, hcore⟩

/-- One more value on the stack and deeper nesting make no difference to pending modules. -/
theorem PreparesInterpret.alike (h : PreparesInterpret depth i s) (stack : OperandStack) :
    Outcome.Alike (.keeping { i with stack } false fun _ => True) (· = ·)
      (((initializePending (nested depth)).finish i s).onStack stack)
      ((initializePending (nested (depth + 1))).finish { i with stack } s) := by
  have hL := Likeness.keeping_sound { i with stack } false (Invariant.trivial 0)
  rw [← h.aside]
  exact (Task.Alike.initializePending hL (.deeper hL rfl rfl depth.le_succ)).finish
    (Likeness.keeping_self _ false trivial nofun) (.refl nofun nofun)

/-- The run of a source and the run of the word agree, whatever the source is. -/
theorem interpretAgrees (hin : i.inputs = []) (hi : i.Settled) (hr : i.recovery = none)
    (hs : s.Blind) (hp : PreparesInterpret depth i s) (source : String) :
    InterpretAgrees ((runSource (nested depth) source .origin).finish i s)
      ((runSource (nested (depth + 1)) "INTERPRET" .origin).finish
        { i with stack := i.stack.push (.str source) } s) := by
  have hplain : i.Plain := ⟨⟨hi.wellCompiled hin, hi⟩, hr⟩
  have hblind : (∀ d ∈ i.definition, Word.BlindBody d.body) ∧ s.Blind :=
    ⟨by rw [(hi hin).definition]; exact nofun, hs⟩
  have hdeeper := hp.alike (i.stack.push (.str source))
  have hL := Likeness.keeping_sound i true (Interp.plain_invariant 0)
  have hself := Task.Alike.initializePending hL (.exact hL rfl rfl depth)
  rw [finish_runSource_outermost hin,
    finish_runSource_outermost (i := { i with stack := i.stack.push (.str source) }) hin]
  cases hx : (initializePending (nested depth)).finish i s with
  | hung u =>
    rw [hx, Outcome.onStack] at hdeeper
    generalize (initializePending (nested (depth + 1))).finish _ s = y at hdeeper
    cases hdeeper
    exact .hung
  | ended r i₀ s₀ =>
    have hne : r ≠ .exhausted := fun h => hp.inDepth i₀ s₀ (h ▸ hx)
    rw [hx, Outcome.onStack] at hdeeper
    obtain ⟨t₀, hy, hst, -⟩ :=
      hdeeper.ended (Likeness.keeping_sound _ false (Invariant.trivial 0)) rfl hne
    have hst : s₀.Alike t₀ := hst.alike rfl
    rw [hy]
    cases r with
    | exhausted => exact absurd rfl hne
    | fault f => exact .unbegun hst
    | ok =>
      obtain ⟨hfits, hblind₀⟩ := hself.keeps hplain (fun _ => hblind) hx Result.ok_ne_exhausted
      have hstack : i₀.stack = i.stack := by
        have haside : (initializePending (nested depth)).finish i s = _ := hp.aside i.stack
        rw [hx] at haside
        injection haside with _ hi₀ _
        rw [hi₀]
      obtain ⟨hclosed, w, hw, hcore⟩ := hp.ready i₀ s₀ hx
      have hnames : SameNames i₀ s₀ i₀ t₀ := ⟨rfl, rfl, by rw [hst.rest]; rfl⟩
      have hst : Store.AlikeBut false true s₀ t₀ :=
        Likeness.Stores.of_alike (L := .amid [] []) hst rfl fun _ => hblind₀ rfl
      rw [Outcome.bind_ok, Outcome.bind_ok, ← hstack]
      exact interpretAgrees_ownRun hfits.holds ((hfits.inputs_eq rfl).trans hin)
        (initializePending_empties hx) hclosed hst
        ((hnames.toOption_resolve "INTERPRET" none none).trans hw) hcore source

end Agreement

/-! ## Transparency -/

/-- Two runs end the same way: both succeed and nobody can tell the states apart, or both fail, or
neither. Errors that are neither stops on purpose nor ones of the engine may differ. -/
structure SameEnd (x y : Outcome Unit) : Prop where
  succeeds : (∃ i s, x = .ended (.ok ()) i s) ↔ ∃ j t, y = .ended (.ok ()) j t
  state : ∀ {i s j t}, x = .ended (.ok ()) i s → y = .ended (.ok ()) j t → Indistinct i s j t
  fails : (∃ f i s, x = .ended (.fault f) i s) ↔ ∃ g j t, y = .ended (.fault g) j t
  error : ∀ {f i s g j t}, x = .ended (.fault f) i s → y = .ended (.fault g) j t →
    f.isStop = true ∨ f.isEngine = true → g.errorType = f.errorType ∧ g.message = f.message

theorem SameEnd.of_ok {i j : Interp} {s t : Store} (h : Indistinct i s j t) :
    SameEnd (.ended (.ok ()) i s) (.ended (.ok ()) j t) where
  succeeds := ⟨fun _ => ⟨_, _, rfl⟩, fun _ => ⟨_, _, rfl⟩⟩
  state hx hy := by
    cases hx
    cases hy
    exact h
  fails := by
    constructor
    · rintro ⟨f, k, u, hx⟩
      cases hx
    · rintro ⟨g, k, u, hy⟩
      cases hy
  error hx := by cases hx

theorem SameEnd.of_fault {f g : Fault} {i j : Interp} {s t : Store}
    (h : f.isStop = true ∨ f.isEngine = true → g.errorType = f.errorType ∧ g.message = f.message) :
    SameEnd (.ended (.fault f) i s) (.ended (.fault g) j t) where
  succeeds := by
    constructor
    · rintro ⟨k, u, hx⟩
      cases hx
    · rintro ⟨k, u, hy⟩
      cases hy
  state hx := by cases hx
  fails := ⟨fun _ => ⟨g, j, t, rfl⟩, fun _ => ⟨f, i, s, rfl⟩⟩
  error hx hy := by
    cases hx
    cases hy
    exact h

theorem SameEnd.of_neither {x y : Outcome Unit} (hx : ∀ i s, x ≠ .ended (.ok ()) i s)
    (hx' : ∀ f i s, x ≠ .ended (.fault f) i s) (hy : ∀ i s, y ≠ .ended (.ok ()) i s)
    (hy' : ∀ f i s, y ≠ .ended (.fault f) i s) : SameEnd x y where
  succeeds := ⟨fun ⟨i, s, h⟩ => absurd h (hx i s), fun ⟨i, s, h⟩ => absurd h (hy i s)⟩
  state h := absurd h (hx _ _)
  fails := ⟨fun ⟨f, i, s, h⟩ => absurd h (hx' f i s), fun ⟨f, i, s, h⟩ => absurd h (hy' f i s)⟩
  error h := absurd h (hx' _ _ _)

theorem InterpretAgrees.sameEnd {x y : Outcome Unit} (h : InterpretAgrees x y) : SameEnd x y := by
  cases h with
  | ok h => exact .of_ok h
  | fault hf =>
    refine .of_fault fun _ => ?_
    exact ⟨(Fault.errorType_eq_of_blur hf).symm, (Fault.message_eq_of_blur hf).symm⟩
  | foreign hstop hengine =>
    refine .of_fault fun h => ?_
    rw [hstop, hengine] at h
    simp at h
  | unbegun =>
    refine .of_fault fun _ => ?_
    exact ⟨rfl, rfl⟩
  | exhausted => exact .of_neither (by simp) (by simp) (by simp) (by simp)
  | hung => exact .of_neither (by simp) (by simp) (by simp) (by simp)

/-! ### A word, a module and sources -/

/-- The word as core's module has it. -/
def Word.interpreting : Word :=
  .direct { name := "INTERPRET", home := some coreName } true Core.interpret []

theorem Word.interpreting_isCore : Word.interpreting.IsCore "INTERPRET" :=
  ⟨Core.directs[0], List.getElem_mem _, rfl, _, rfl, rfl, rfl⟩

/-- Drops a value. -/
def Word.dropping : Word := .direct { name := "DROP" } false (.ask .pop fun _ => .done ()) []

/-- Uses a module, and gives up on what fails. -/
def Word.leaving : Word :=
  .direct { name := "LEAVE" } false (.query (.useModules [("closing", "")])) [fun _ => .done ()]

/-- A store with these words and another module. -/
def Store.withInterpret (m : Module) : Store :=
  { modules := #[{ name := "", words := [.interpreting, .dropping, .leaving] }, m] }

theorem Store.withInterpret_blind {m : Module} (h : m.words = []) :
    (Store.withInterpret m).Blind := by
  intro n hn w hw
  obtain rfl | rfl : n = { name := "", words := [.interpreting, .dropping, .leaving] } ∨ n = m := by
    simpa [withInterpret] using hn
  · obtain rfl | rfl | rfl : w = .interpreting ∨ w = .dropping ∨ w = .leaving := by simpa using hw
    · exact Core.directs_blind Core.directs[0] (List.getElem_mem _)
    · exact ⟨.ask .pop fun _ _ _ => .done _, nofun⟩
    · refine ⟨Native.blind_query _ fun _ _ => id, fun h hh => ?_⟩
      obtain rfl := List.mem_singleton.mp hh
      exact fun _ _ _ => .done _
  · rw [h] at hw
    cases hw

/-- An interpreter with a value, where a module is registered and may be pending. -/
def Interp.holdingOne (name : String) (pending : List Nat) : Interp :=
  { Interp.blank with stack := .ofList [.int 1], registered := [(name, 1)], pending }

/-- A module whose source takes a value. -/
def Module.taking : Module := .new "taking" "" "DROP" false

/-- A module whose source closes the block of the module. -/
def Module.closing : Module := .new "closing" "" "\x7d" false

/-- Between runs, without a handler and while executions are not counted, the name is core's. -/
structure CallsInterpret (i : Interp) (s : Store) : Prop where
  inputs : i.inputs = []
  settled : i.Settled
  recovery : i.recovery = none
  closed : i.profile.isOpen = false
  blind : s.Blind
  core : ∃ w, (i.resolve s "INTERPRET" none).toOption = some w ∧ w.IsCore "INTERPRET"

theorem callsInterpret_holdingOne {m : Module} (h : m.words = []) (name : String)
    (pending : List Nat) : CallsInterpret (.holdingOne name pending) (.withInterpret m) :=
  ⟨rfl, fun _ => rfl, rfl, rfl, Store.withInterpret_blind h, _, rfl, Word.interpreting_isCore⟩

/-! ### The word and the run -/

/-- Core's word for sources is transparent: between runs, as long as the modules that are pending do
not depend on the stack, the word ends on a stack with a source on top as the run of that source does
on the stack below it, whatever the source is. -/
theorem interpret_transparent {depth : Nat} {i : Interp} {s : Store} (hin : i.inputs = [])
    (hi : i.Settled) (hr : i.recovery = none) (hs : s.Blind) (hp : PreparesInterpret depth i s)
    (source : String) :
    SameEnd ((runSource (nested depth) source .origin).finish i s)
      ((runSource (nested (depth + 1)) "INTERPRET" .origin).finish
        { i with stack := i.stack.push (.str source) } s) :=
  (interpretAgrees hin hi hr hs hp source).sameEnd

theorem interpret_transparent_unclosed :
    let i := Interp.holdingOne "taking" []
    let s := Store.withInterpret .taking
    i.inputs = [] ∧ i.Settled ∧ i.recovery = none ∧ s.Blind ∧ PreparesInterpret 1 i s ∧
    ∃ g j t, (runSource (nested 2) "INTERPRET" .origin).finish
        { i with stack := i.stack.push (.str "DROP [") } s = .ended (.fault g) j t ∧
      g.errorType = "UnmatchedBracketError" := by
  intro i s
  have hcalls : CallsInterpret i s := callsInterpret_holdingOne rfl "taking" []
  have hp : PreparesInterpret 1 i s := .of_pending_nil rfl rfl rfl Word.interpreting_isCore
  have hend := interpret_transparent hcalls.inputs hcalls.settled hcalls.recovery hcalls.blind hp
    "DROP ["
  have hrun : ((runSource (nested 1) "DROP [" .origin).finish i s).failsWith
      (fun f => f.isEngine && f.errorType == "UnmatchedBracketError") = true := by decide +kernel
  obtain ⟨f, j, t, hx, hf⟩ := Outcome.exists_of_failsWith hrun
  obtain ⟨hengine, htype⟩ := Bool.and_eq_true_iff.mp hf
  obtain ⟨g, k, u, hy⟩ := hend.fails.mp ⟨f, j, t, hx⟩
  obtain ⟨hsame, -⟩ := hend.error hx hy (.inr hengine)
  exact ⟨hcalls.inputs, hcalls.settled, hcalls.recovery, hcalls.blind, hp, g, k, u, hy,
    hsame.trans (beq_iff_eq.mp htype)⟩

/-- The source of a module that is pending may take the source from the stack, and an error of the
host, here for the block of a module that was closed, is wrapped by the word. -/
theorem interpret_may_be_told :
    (let i := Interp.holdingOne "taking" [1]
      let s := Store.withInterpret .taking
      CallsInterpret i s ∧ ∃ j t f k u,
        (runSource (nested 1) "[ ]" .origin).finish i s = .ended (.ok ()) j t ∧
        (runSource (nested 2) "INTERPRET" .origin).finish
          { i with stack := i.stack.push (.str "[ ]") } s = .ended (.fault f) k u) ∧
    (let i := Interp.holdingOne "closing" []
      let s := Store.withInterpret .closing
      CallsInterpret i s ∧ ∃ f j t g k u,
        (runSource (nested 1) "LEAVE : X ;" .origin).finish i s = .ended (.fault f) j t ∧
        (runSource (nested 2) "INTERPRET" .origin).finish
          { i with stack := i.stack.push (.str "LEAVE : X ;") } s = .ended (.fault g) k u ∧
        f.errorType = "TypeError" ∧ g.errorType = "NativeWordError") := by
  constructor
  · intro i s
    have hrun : ((runSource (nested 1) "[ ]" .origin).finish i s).isOk (fun _ _ => true) = true := by
      decide +kernel
    have hword : ((runSource (nested 2) "INTERPRET" .origin).finish
        { i with stack := i.stack.push (.str "[ ]") } s).failsWith (fun _ => true) = true := by
      decide +kernel
    obtain ⟨j, t, hx, -⟩ := Outcome.exists_of_isOk hrun
    obtain ⟨f, k, u, hy, -⟩ := Outcome.exists_of_failsWith hword
    exact ⟨callsInterpret_holdingOne rfl _ _, j, t, f, k, u, hx, hy⟩
  · intro i s
    have hrun : ((runSource (nested 1) "LEAVE : X ;" .origin).finish i s).failsWith
        (fun f => f.errorType == "TypeError") = true := by decide +kernel
    have hword : ((runSource (nested 2) "INTERPRET" .origin).finish
        { i with stack := i.stack.push (.str "LEAVE : X ;") } s).failsWith
          (fun g => g.errorType == "NativeWordError") = true := by decide +kernel
    obtain ⟨f, j, t, hx, hf⟩ := Outcome.exists_of_failsWith hrun
    obtain ⟨g, k, u, hy, hg⟩ := Outcome.exists_of_failsWith hword
    exact ⟨callsInterpret_holdingOne rfl _ _, f, j, t, g, k, u, hx, hy, beq_iff_eq.mp hf,
      beq_iff_eq.mp hg⟩

end Wordstack
