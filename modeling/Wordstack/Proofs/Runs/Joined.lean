import Wordstack.Proofs.Runs.Rest
import Wordstack.Proofs.Runs.Tokens

/-!
# Joined sources

Running one source and then another one is running the text that has the second on the lines behind
the first.

- **Reading elsewhere** (`Scanner.Scans.elsewhere`): what is read does not depend on the text around
  and the place, but for the places of the tokens.
- **Tokens in lockstep** (`Task.Alike.readTokens`): tokens that differ in their places only, in two
  texts (`Likeness.beside`).
- **The first source** (`finish_runSource_ok`): where a run has succeeded no definition and no bracket
  is open, so the state between the runs is the one in the middle of the joined text, but for places.
- **Agreement** (`joined_run_agrees`): the second run and the rest of the joined one succeed or fail
  together.
-/

namespace Wordstack

/-! ## Reading elsewhere -/

/-- Reading stops at the end of the source, or with the same fault but for places. -/
inductive StopsAlike : Except Fault Token → Except Fault Token → Prop
  | eos {t t' : Token} (h : t.blur true = t'.blur true) : StopsAlike (.ok t) (.ok t')
  | fault {f g : Fault} (h : f.blur = g.blur) : StopsAlike (.error f) (.error g)

theorem StopsAlike.symm {stop stop' : Except Fault Token} (h : StopsAlike stop stop') :
    StopsAlike stop' stop := by
  cases h with
  | eos h => exact .eos h.symm
  | fault h => exact .fault h.symm

namespace Scanner

variable {s s' : Scanner}

/-- Where the same characters are left the same is read next, at a place of its own. -/
theorem next_of_rest (h : s'.rest = s.rest) :
    s'.next.2.rest = s.next.2.rest ∧ StopsAlike s.next.1 s'.next.1 := by
  unfold next
  rw [h]
  cases lex s.rest with
  | ok r => exact ⟨rfl, .eos rfl⟩
  | error f =>
    cases f with
    | unterminated => exact ⟨rfl, .fault rfl⟩
    | badName => exact ⟨rfl, .fault rfl⟩

/-- The same characters are read as the same tokens, wherever they stand. -/
theorem Scans.elsewhere {ts : List Token} {stop : Except Fault Token} (h : s.Scans ts stop)
    (hr : s'.rest = s.rest) : ∃ ts' stop', s'.Scans ts' stop' ∧
      ts.map (Token.blur true) = ts'.map (Token.blur true) ∧ StopsAlike stop stop' := by
  induction h generalizing s' with
  | fault h =>
    obtain ⟨-, hstop⟩ := next_of_rest hr
    generalize hn : s'.next = n at hstop
    obtain ⟨o, sc'⟩ := n
    rw [h] at hstop
    cases hstop with
    | fault hf => exact ⟨[], _, .fault hn, rfl, .fault hf⟩
  | eos h hk =>
    obtain ⟨-, hstop⟩ := next_of_rest hr
    generalize hn : s'.next = n at hstop
    obtain ⟨o, sc'⟩ := n
    rw [h] at hstop
    cases hstop with
    | eos ht => exact ⟨[], _, .eos hn ((Token.kind_eq_of_blur ht).symm.trans hk), rfl, .eos ht⟩
  | next h hk _ ih =>
    obtain ⟨hrest, hstop⟩ := next_of_rest hr
    generalize hn : s'.next = n at hrest hstop
    obtain ⟨o, sc'⟩ := n
    rw [h] at hrest hstop
    cases hstop with
    | @eos t t' ht =>
      obtain ⟨ts', stop', htail, hmap, hstops⟩ := ih hrest
      refine ⟨t' :: ts', stop', .next hn ?_ htail, congrArg₂ List.cons ht hmap, hstops⟩
      rwa [← Token.kind_eq_of_blur ht]

end Scanner

/-! ## Tokens in lockstep -/

/-- Handles tokens in order, and then what reading stops with. -/
def Task.readAll (e : Nested) (ts : List Token) (stop : Except Fault Token) : Task Unit := do
  readTokens e ts
  readStop e stop

theorem finish_readAll_append {e : Nested} {i : Interp} {s : Store} {ts us : List Token}
    {stop : Except Fault Token} :
    (Task.readAll e (ts ++ us) stop).finish i s =
      ((Task.readTokens e ts).finish i s).bind fun _ => (Task.readAll e us stop).finish := by
  have hread : ∀ us i s, (Task.readAll e us stop).finish i s =
      ((Task.readTokens e us).finish i s).bind fun _ => (Task.readStop e stop).finish :=
    fun us i s => Task.finish_bind ..
  rw [hread, finish_readTokens_append]
  cases (Task.readTokens e ts).finish i s with
  | hung u => rfl
  | ended r j u =>
    cases r with
    | ok => exact (hread us j u).symm
    | fault f => rfl
    | exhausted => rfl

namespace Task.Alike

variable {L : Likeness} {e e' : Nested} {t t' : Token} {ts ts' : List Token}

theorem readToken (hL : L.Sound) (he : Nested.Alike L e e') (hin : L.first ≠ [])
    (ht : t.blur L.relocates = t'.blur L.relocates) :
    Task.Alike L L (· = ·) (Task.readToken e t) (Task.readToken e' t') := by
  unfold Task.readToken
  exact (handleToken hL he hin ht).bind fun _ _ _ => notePrevious hL ht

theorem readTokens (hL : L.Sound) (he : Nested.Alike L e e') (hin : L.first ≠ [])
    (h : ts.map (Token.blur L.relocates) = ts'.map (Token.blur L.relocates)) :
    Task.Alike L L (· = ·) (Task.readTokens e ts) (Task.readTokens e' ts') := by
  induction ts generalizing ts' with
  | nil =>
    obtain rfl : ts' = [] := List.map_eq_nil_iff.mp h.symm
    exact pure rfl
  | cons t ts ih =>
    obtain ⟨t', ts', rfl, ht, hts⟩ := List.map_eq_cons_iff.mp h.symm
    unfold Task.readTokens
    exact (readToken hL he hin ht.symm).bind fun _ _ _ => ih hts.symm

/-- Where words may differ in their places the same may be read at other places. -/
theorem readAll (hL : L.Sound) (he : Nested.Alike L e e') (hin : L.first ≠ [])
    (hr : L.relocates = true) (h : ts.map (Token.blur true) = ts'.map (Token.blur true))
    {stop stop' : Except Fault Token} (hs : StopsAlike stop stop') :
    Task.Alike L L (· = ·) (Task.readAll e ts stop) (Task.readAll e' ts' stop') := by
  unfold Task.readAll
  refine (readTokens hL he hin (by rwa [hr])).bind fun _ _ _ => ?_
  cases hs with
  | eos ht => exact readToken hL he hin (by rwa [hr])
  | fault hf =>
    refine throw (hL.fault hf fun hl => ?_)
    rw [hL.relocates hr] at hl
    cases hl

end Task.Alike

/-! ## Two texts -/

/-- The likeness of interpreters that read the same words from two texts. -/
def Likeness.beside (text text' : String) : Likeness :=
  { under := [text], around := [text'], loose := true, blurs := true, blind := true
    relocates := true, holds := Interp.Plain }

section Beside

variable {text text' : String} {i j : Interp}

theorem Likeness.beside_sound (text text' : String) : (Likeness.beside text text').Sound :=
  ⟨nofun, rfl, fun _ => rfl, fun _ => rfl, Nat.zero_le 2, Interp.plain_invariant 0,
    fun _ _ hi => hi.2⟩

/-- Nested work in two texts. -/
theorem Nested.Alike.beside (text text' : String) (depth : Nat) :
    Nested.Alike (.beside text text') (nested depth) (nested depth) :=
  .of_le (Likeness.beside_sound text text') rfl (fun _ => by simp [Likeness.beside])
    (Nat.le_refl depth)

/-- Between definitions it does not matter which text is which. -/
theorem Likeness.Interps.beside_symm (hi : (Likeness.beside text text').Interps i j)
    (hidle : i.Idle) : (Likeness.beside text' text).Interps j i := by
  have hd : j.definition = none := by
    obtain ⟨-, h⟩ | ⟨d, -, h, -⟩ := hi.definitions
    · exact h
    · rw [hidle.definition] at h
      cases h
  have hj : j.Idle := by
    unfold Interp.Idle Interp.compileState
    rw [hi.view Interp.compiling fun _ _ => rfl, hi.view Interp.memoDefinition fun _ _ => rfl, hd,
      hidle.compiling, hidle.memo]
  refine ⟨?_, hi.fits.inputs, ⟨hi.inputs, ?_, ⟨⟨fun _ => hj, fun _ => hj⟩, ?_⟩, ?_⟩, nofun,
    hi.definition.symm⟩
  · rw [hi.rest]
    rfl
  · rw [hi.view Interp.pending fun _ _ => rfl]
    exact hi.fits.pending
  · rw [hi.view Interp.recovery fun _ _ => rfl]
    exact hi.fits.holds.2
  · rw [hd]
    exact nofun

end Beside

/-! ## The first source -/

section First

variable {e : Nested} {depth : Nat} {i x : Interp} {s t : Store} {source : String}
  {origin : Location}

theorem finish_readToken_eos_ok {eos : Token} (hk : eos.kind = .eos)
    (h : (Task.readToken e eos).finish i s = .ended (.ok ()) x t) :
    i.compiling = false ∧ x = i.moved i.inputs i.call (some eos.location) ∧ t = s := by
  have hc : i.compiling = false := by
    rw [finish_readToken] at h
    obtain ⟨_, j, u, hx, -⟩ := Outcome.of_bind_ok h
    cases hc : i.compiling with
    | false => rfl
    | true =>
      unfold handleToken at hx
      rw [hk] at hx
      simp only [Task.finish_bind, Task.finish_interp, Outcome.bind_ok, hc] at hx
      cases hx
  rw [finish_readToken_eos hk hc] at h
  cases h
  exact ⟨hc, rfl, rfl⟩

/-- A run that has succeeded has handled all its tokens, and left no definition open. -/
theorem finish_runSource_ok (hin : i.inputs = []) (hp : i.pending = []) (hr : i.recovery = none)
    (h : (runSource e source origin).finish i s = .ended (.ok ()) x t) :
    ∃ ts eos k, (Scanner.start source origin).Scans ts (.ok eos) ∧
      (Task.readTokens e ts).finish (i.beginRun (Scanner.start source origin).input) s =
        .ended (.ok ()) k t ∧
      k.compiling = false ∧ x = (k.moved k.inputs k.call (some eos.location)).endRun := by
  rw [finish_runSource_outermost hin, finish_initializePending_nil hp, Outcome.bind_ok] at h
  rcases Task.finish_ownRun_cases h Result.ok_ne_exhausted with
    ⟨k', hk', -, -, rfl⟩ | ⟨f, k', -, hf, -⟩
  swap
  · cases hf
  have hscans := (Scanner.start source origin).tokens_scans
  rw [finish_runScanner_scans (i := i.beginRun _) hscans hr] at hk'
  obtain ⟨_, k, u, hread, hstop⟩ := Outcome.of_bind_ok hk'
  cases hs : (Scanner.start source origin).tokens.stop with
  | error f =>
    rw [hs] at hstop
    cases hstop
  | ok eos =>
    rw [hs] at hscans hstop
    obtain ⟨hc, rfl, rfl⟩ := finish_readToken_eos_ok hscans.kind_eos hstop
    exact ⟨_, eos, k, hscans, hread, hc, rfl⟩

/-- A run itself, once its tokens are known. -/
theorem finish_runSource_scans {ts : List Token} {stop : Except Fault Token} (hin : i.inputs = [])
    (hp : i.pending = []) (hr : i.recovery = none)
    (h : (Scanner.start source origin).Scans ts stop) :
    (runSource e source origin).finish i s =
      ((Task.readAll e ts stop).finish (i.beginRun (Scanner.start source origin).input) s
        ).attempt.bind fun o j u => (Task.finishRun true i.transient o).finish j u := by
  rw [finish_runSource_outermost hin, finish_initializePending_nil hp, Outcome.bind_ok,
    Task.finish_ownRun, finish_runScanner_scans (i := i.beginRun _) h hr, Task.readAll,
    Task.finish_bind]

end First

/-! ## Agreement -/

/-- No word of the store can tell from which text or place it is read: their code does not ask, and
there is no other runtime to be called, whose failures name places in their messages. -/
structure Store.Placeless (s : Store) : Prop where
  blind : s.Blind
  alone : s.endpoints = []

/-- The same values on the operand stack, the same modules in scope, the same values of variables,
and the same dictionaries but for the places of their words. -/
structure Agree (i : Interp) (s : Store) (j : Interp) (t : Store) : Prop where
  stack : j.stack = i.stack
  scope : j.scope = i.scope
  cells : t.cells = s.cells
  modules : t.modules.map (Module.blur true) = s.modules.map (Module.blur true)

/-- How two runs end that agree: both succeed, or both fail with the same fault but for places. -/
inductive RunsAgree : Outcome Unit → Outcome Unit → Prop
  | ok {i j : Interp} {s t : Store} (h : Agree i s j t) :
      RunsAgree (.ended (.ok ()) i s) (.ended (.ok ()) j t)
  | fault {f g : Fault} {i j : Interp} {s t : Store} (h : f.blur = g.blur)
      (hs : j.stack = i.stack) : RunsAgree (.ended (.fault f) i s) (.ended (.fault g) j t)
  | exhausted {i j : Interp} {s t : Store} :
      RunsAgree (.ended .exhausted i s) (.ended .exhausted j t)
  | hung {s t : Store} : RunsAgree (.hung s) (.hung t)

/-- What it says of two runs that they agree: the second one succeeds where the first one does, in
the same state, and fails where it does, with the same error. -/
theorem RunsAgree.ends {y z : Outcome Unit} (h : RunsAgree y z) :
    ((∃ k v, z = .ended (.ok ()) k v) ↔ ∃ j u, y = .ended (.ok ()) j u) ∧
    (∀ j u k v, y = .ended (.ok ()) j u → z = .ended (.ok ()) k v → Agree j u k v) ∧
    (∀ f j u, y = .ended (.fault f) j u → ∃ g k v, z = .ended (.fault g) k v ∧
      g.errorType = f.errorType ∧ g.message = f.message ∧ k.stack = j.stack) := by
  cases h with
  | ok hsame =>
    refine ⟨⟨fun _ => ⟨_, _, rfl⟩, fun _ => ⟨_, _, rfl⟩⟩, fun j u k v hj hk => ?_, by simp⟩
    cases hj
    cases hk
    exact hsame
  | fault hf hstack =>
    refine ⟨by simp, by simp, fun f j u hj => ?_⟩
    cases hj
    exact ⟨_, _, _, rfl, (Fault.errorType_eq_of_blur hf).symm, (Fault.message_eq_of_blur hf).symm,
      hstack⟩
  | exhausted => simp
  | hung => simp

section Agreement

variable {text text' : String} {depth : Nat} {i j x : Interp} {s t : Store}

theorem Likeness.Interps.agree (hi : (Likeness.beside text text').Interps i j)
    (hs : (Likeness.beside text text').Stores s t) : Agree i.endRun s j.endRun t :=
  ⟨hi.view Interp.stack fun _ _ => rfl, hi.view Interp.scope fun _ _ => rfl,
    hs.view Store.cells fun _ _ => rfl, hs.modules.symm⟩

/-- Runs whose tokens have been handled end alike. -/
theorem finishRun_agree {saved saved' : Transient}
    (hi : (Likeness.beside text text').Interps i j)
    (hs : (Likeness.beside text text').Stores s t) :
    RunsAgree ((Task.finishRun true saved (.ok ())).finish i s)
      ((Task.finishRun true saved' (.ok ())).finish j t) := by
  have hmarks : j.marks = i.marks := hi.view Interp.marks fun _ _ => rfl
  by_cases hm : i.marks = []
  · rw [Task.finish_finishRun_closed fun _ => hm,
      Task.finish_finishRun_closed fun _ => hmarks.trans hm]
    exact .ok (hi.agree hs)
  · rw [Task.finish_finishRun_open hm, Task.finish_finishRun_open (hmarks ▸ hm)]
    exact .fault rfl (hi.view Interp.stack fun _ _ => rfl)

/-- What is read in two texts, and ends alike whichever is the first one, ends runs that agree. -/
theorem runsAgree_of_alike {x y : Outcome Unit} {saved saved' : Transient}
    (h : Outcome.Alike (.beside text text') (· = ·) x y)
    (h' : Outcome.Alike (.beside text' text) (· = ·) y x) :
    RunsAgree (x.attempt.bind fun o i s => (Task.finishRun true saved o).finish i s)
      (y.attempt.bind fun o i s => (Task.finishRun true saved' o).finish i s) := by
  cases h with
  | ok _ hi hs => exact finishRun_agree hi hs
  | fault hf hi _ => exact .fault hf.blur_eq (hi.view Interp.stack fun _ _ => rfl)
  | hung => exact .hung
  | exhausted =>
    cases h' with
    | exhausted => exact .exhausted

/-- The interpreters that begin to read two texts. -/
theorem Interp.AtRest.beside (hi : i.AtRest) (hp : i.pending = []) (hr : i.recovery = none)
    (text text' : String) :
    (Likeness.beside text text').Interps (i.beginRun text) (i.beginRun text') := by
  refine ⟨rfl, congrArg (text' :: ·) hi.inputs, ⟨congrArg (text :: ·) hi.inputs, ?_,
    ⟨⟨fun _ => hi.idle, fun _ => hi.idle⟩, hr⟩, ?_⟩, nofun, rfl⟩
  · show i.pending.length ≤ 0
    rw [hp]
    exact Nat.le_refl 0
  · show _ → ∀ d ∈ i.definition, _
    rw [hi.definition]
    exact nofun

/-- A run is over, and the next one begins to read its text, where another text goes on. -/
theorem Likeness.Interps.nextRun (hi : (Likeness.beside text text').Interps i j) (hidle : i.Idle)
    (next : String) (previous : Option Location) :
    (Likeness.beside next text').Interps
      ((i.moved i.inputs i.call previous).endRun.beginRun next) j := by
  have hin : i.inputs = [text] := hi.fits.inputs
  refine ⟨?_, hi.inputs, ⟨?_, hi.fits.pending, ⟨⟨fun _ => hidle, fun _ => hidle⟩,
    hi.fits.holds.2⟩, hi.fits.body⟩, nofun, hi.definition⟩
  · rw [hi.rest]
    rfl
  · show next :: i.inputs.tail = [next]
    rw [hin]
    rfl

/-- The state between the runs of two sources is the one in the middle of any text that begins with
the tokens of the first one, but for places. -/
theorem finish_readTokens_middle {source : String} {origin : Location} (hi : i.AtRest)
    (hp : i.pending = []) (hr : i.recovery = none) (hs : s.Placeless)
    (h : (runSource (nested depth) source origin).finish i s = .ended (.ok ()) x t)
    (text : String) :
    ∃ ts eos j u, (Scanner.start source origin).Scans ts (.ok eos) ∧
      (Task.readTokens (nested depth) ts).finish (i.beginRun text) s = .ended (.ok ()) j u ∧
      (∀ next, (Likeness.beside next text).Interps (x.beginRun next) j) ∧
      Store.AlikeBut true true t u := by
  obtain ⟨ts, eos, k, hscans, hread, hc, rfl⟩ := finish_runSource_ok hi.inputs hp hr h
  have hstart := (Task.Alike.readTokens (Likeness.beside_sound (Scanner.start source origin).input text)
    (.beside _ _ depth) (List.cons_ne_nil _ _) (Eq.refl (ts.map (Token.blur true)))).finish
      (hi.beside hp hr _ text) (.refl (fun _ => hs.blind) fun _ => hs.alone)
  rw [hread] at hstart
  generalize hmiddle : (Task.readTokens (nested depth) ts).finish (i.beginRun text) s = middle
    at hstart
  cases hstart with
  | @ok _ _ _ j _ u _ hkj htu =>
    exact ⟨ts, eos, j, u, hscans, hmiddle,
      fun next => hkj.nextRun (hkj.fits.holds.1.1 hc) next (some eos.location), htu⟩

theorem runsAgree_joined {first second : String} {origin origin' : Location} (hi : i.AtRest)
    (hp : i.pending = []) (hr : i.recovery = none) (hs : s.Placeless)
    (h : (runSource (nested depth) first origin).finish i s = .ended (.ok ()) x t) :
    RunsAgree ((runSource (nested depth) second origin').finish x t)
      ((runSource (nested depth) (first ++ "\n" ++ second) origin).finish i s) := by
  let joined := (Scanner.start (first ++ "\n" ++ second) origin).input
  let text := (Scanner.start second origin').input
  obtain ⟨ts, eos, j, u, hfirst, hread, hmiddle, htu⟩ :=
    finish_readTokens_middle hi hp hr hs h joined
  -- The second source has the same tokens alone and behind the first one.
  have hsecond := (Scanner.start second origin').tokens_scans
  have hrest : ((Scanner.start first origin).nextLine joined (unescape second.toList)).rest =
      (Scanner.start second origin').rest := rfl
  obtain ⟨us, stop, hline, hus, hstop⟩ := hsecond.elsewhere hrest
  have hall := hfirst.goingOn hline
  rw [← start_goingOn] at hall
  have hx : x.AtRest := Task.KeepsRest.nested (depth + 1) _ _ hi h Result.ok_ne_exhausted
  have hnext := hmiddle text
  have hrun := (Task.Alike.readAll (Likeness.beside_sound text joined) (.beside _ _ depth)
    (List.cons_ne_nil _ _) rfl hus hstop).finish hnext htu
  have hback := (Task.Alike.readAll (Likeness.beside_sound joined text) (.beside _ _ depth)
    (List.cons_ne_nil _ _) rfl hus.symm hstop.symm).finish (hnext.beside_symm hx.idle) htu.symm
  rw [finish_runSource_scans hx.inputs (finish_runSource_pending hi.inputs h) hnext.fits.holds.2
    hsecond, finish_runSource_scans hi.inputs hp hr hall, finish_readAll_append]
  rw [show (Task.readTokens (nested depth) ts).finish (i.beginRun joined) s = _ from hread,
    Outcome.bind_ok]
  exact runsAgree_of_alike hrun hback

end Agreement

/-- Once a source was run on an interpreter at rest, running another one and running the text that
has it on the lines behind the first come to the same: both succeed, with the same values, variables,
dictionaries and modules in scope, or both fail, with the same fault and the same values. The words
that the second source defines stand in other places of the joined text, and the faults name other
places; nothing else is different. -/
theorem joined_run_agrees {depth : Nat} {i x : Interp} {s t : Store} {first : String}
    {origin : Location} (hi : i.AtRest) (hp : i.pending = []) (hr : i.recovery = none)
    (hs : s.Placeless)
    (h : (runSource (nested depth) first origin).finish i s = .ended (.ok ()) x t)
    (second : String) (origin' : Location) :
    let next := (runSource (nested depth) second origin').finish x t
    let joined := (runSource (nested depth) (first ++ "\n" ++ second) origin).finish i s
    ((∃ k v, joined = .ended (.ok ()) k v) ↔ ∃ j u, next = .ended (.ok ()) j u) ∧
    (∀ j u k v, next = .ended (.ok ()) j u → joined = .ended (.ok ()) k v → Agree j u k v) ∧
    (∀ f j u, next = .ended (.fault f) j u → ∃ g k v, joined = .ended (.fault g) k v ∧
      g.errorType = f.errorType ∧ g.message = f.message ∧ k.stack = j.stack) := by
  exact (runsAgree_joined hi hp hr hs h).ends

/-- A definition, and a line with another one that uses it. -/
theorem joined_run_agrees_definition : ∃ i s x t j u k v,
    Interp.standard (.emptyCore []) .emptyCore [] = .ok (i, s) ∧
    (runSource (nested 1) ": F 1 ;" .origin).finish i s = .ended (.ok ()) x t ∧
    (runSource (nested 1) ": G [ F ] ; G" .origin).finish x t = .ended (.ok ()) j u ∧
    (runSource (nested 1) (": F 1 ;" ++ "\n" ++ ": G [ F ] ; G") .origin).finish i s =
      .ended (.ok ()) k v ∧
    Agree j u k v := by
  have hrun : ((Interp.standard (.emptyCore []) .emptyCore []).toOption.any fun p =>
      p.1.pending.isEmpty && p.1.recovery.isNone && p.2.endpoints.isEmpty &&
        ((runSource (nested 1) ": F 1 ;" .origin).finish p.1 p.2).isOk fun x t =>
          ((runSource (nested 1) ": G [ F ] ; G" .origin).finish x t).isOk fun _ _ => true) =
      true := by
    decide +kernel
  obtain ⟨⟨i, s⟩, hmade, hrun⟩ := Except.exists_of_any hrun
  obtain ⟨hsettings, hrun⟩ := Bool.and_eq_true_iff.mp hrun
  obtain ⟨x, t, hfirst, hrun⟩ := Outcome.exists_of_isOk hrun
  obtain ⟨j, u, hnext, -⟩ := Outcome.exists_of_isOk hrun
  rw [Bool.and_eq_true, Bool.and_eq_true] at hsettings
  obtain ⟨⟨hp, hr⟩, ha⟩ := hsettings
  have hm := Interp.made_of_standard hmade
  have hs : s.Placeless := ⟨hm.blind Store.emptyCore_blind, List.isEmpty_iff.mp ha⟩
  obtain ⟨hok, hsame, -⟩ := joined_run_agrees hm.new.atRest (List.isEmpty_iff.mp hp)
    (Option.isNone_iff_eq_none.mp hr) hs hfirst ": G [ F ] ; G" .origin
  obtain ⟨k, v, hjoined⟩ := hok.mpr ⟨j, u, hnext⟩
  exact ⟨i, s, x, t, j, u, k, v, hmade, hfirst, hnext, hjoined, hsame j u k v hnext hjoined⟩

end Wordstack
