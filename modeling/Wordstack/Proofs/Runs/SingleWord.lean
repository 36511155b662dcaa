import Wordstack.Proofs.Machine.Calls

/-!
# Single words and runs of one word

A word can be executed by name, or by a run of a source that consists of it. The runs inside of the
word are outermost runs in the first case only, so only there they fail for an open bracket.

- **Rules** (`closesBrackets`): a machine that gives up when a run fails for an open bracket though
  no other source is being read.
- **Inside of the word** (`Nested.Alike.inside`): where such a machine does not give up, it makes no
  difference whether the word is part of a source.
- **Runs of one word** (`finish_runScanner_word`).
- **Agreement** (`executeWord_agrees_with_run`): when both ways to execute a word end alike, and
  where they do not (`executeWord_may_disagree_with_run`).
-/

namespace Wordstack

/-! ## Rules -/

/-- The rule that no outermost run fails for an open bracket. -/
def closesBrackets (before : Interp) (_ : Location) (outcome : Except Fault Unit) (_ : Interp) :
    Bool :=
  match before.inputs, outcome with
  | [], .error (.unmatchedBracket _ bracket _) => bracket != "["
  | _, _ => true

/-- What holds of an interpreter without a run-level handler between its runs, and inside of
them. -/
def Interp.Plain (i : Interp) : Prop := (i.WellCompiled ∧ i.Settled) ∧ i.recovery = none

theorem Interp.plain_invariant (floor : Nat) : Invariant floor Interp.Plain :=
  (settled_invariant floor).and (recovery_invariant floor)

/-- The likeness of an interpreter that executes a word outside of all sources to one that reads the
word from a text. -/
def Likeness.inside (text : String) : Likeness :=
  { around := [text], loose := true, blurs := true, blind := true, holds := Interp.Plain }

theorem Likeness.inside_sound (text : String) : (Likeness.inside text).Sound :=
  ⟨nofun, rfl, fun _ => rfl, nofun, Nat.zero_le 2, Interp.plain_invariant 0, fun _ _ hi => hi.2⟩

/-! ## Inside of the word -/

section Inside

variable {α β γ : Type}

/-- Faults that are values already are values of what follows. -/
theorem Step.attempt_bind_attempt_bind (x : Step α) (f : Except Fault α → Task β)
    (g : Except Fault β → Task γ) :
    ((x.attempt.bind f).attempt.bind g) =
      x.attempt.bind fun o i s => ((f o i s).attempt.bind g) := by
  induction x with
  | done r i s => cases r <;> rfl
  | pause w s resume ih => exact congrArg (Step.pause w s) (funext fun _ => funext fun _ => ih _ _)

variable {e : Nested} {i : Interp} {s : Store} {source : String} {origin : Location}

/-- An outermost run where no modules are pending is the run itself, a turn later. -/
theorem runSource_outermost_of_nil (hin : i.inputs = []) (hp : i.pending = []) :
    runSource e source origin i s =
      ((Step.done (.ok ()) i s).later).bind fun _ =>
        Task.ownRun e true (Scanner.start source origin) := by
  rw [runSource_outermost hin, Task.bind_apply]
  unfold Task.call initializePending
  rw [Task.bind_apply]
  show Step.bind (Step.later (drainPending e i.pending.length i s)) _ = _
  rw [hp]
  rfl

end Inside

section Outermost

variable {L : Likeness} {e e' : Nested} {text : String}

/-- An outermost run that does not fail for an open bracket, beside the same run inside of another
one. -/
theorem watch_runSource_alike (hL : L.Sound) (he : Nested.Alike L e e') (hin : L.first = [])
    (hsecond : L.second ≠ []) (hp : L.pending = 0) (source : String) (origin : Location)
    (send : String → Method → Json → Task Delivery) :
    Task.Alike L L (· = ·)
      ((Nested.watch closesBrackets ⟨fun source origin => runSource e source origin, send⟩).run
        source origin)
      (runSource e' source origin) := by
  refine ⟨fun {i j s t} hi hs => ?_⟩
  have hii : i.inputs = [] := hi.fits.inputs.trans hin
  have hip : i.pending = [] := List.length_eq_zero_iff.mp (Nat.le_zero.mp (hp ▸ hi.fits.pending))
  have hji : j.inputs ≠ [] := fun h => hsecond (hi.inputs.symm.trans h)
  have hL' := hL.reading ((Scanner.start source origin).input :: L.inputs) L.pending
  have he' := he.reading ((Scanner.start source origin).input :: L.inputs) (Nat.le_refl L.pending)
  have hread := (Task.Alike.runScanner hL' he' (List.cons_ne_nil _ _)
    (Scanner.start source origin)).steps (hi.beginRun hL _) hs
  have hown : Step.Alike L (· = ·)
      ((Task.ownRun e true (Scanner.start source origin) i s).attempt.bind
        (Nested.judge closesBrackets i origin))
      (Task.ownRun e' false (Scanner.start source origin) j t) := by
    rw [Task.ownRun_apply, Task.ownRun_apply, Step.attempt_bind_attempt_bind]
    refine hread.attempt_bind_of_yields (runScanner_yields e _ _ _) id ?_ ?_
    · intro a b k l s' t' hab hc hk hs'
      by_cases hm : k.marks = []
      · have hnested : false = true → l.marks = [] := nofun
        rw [Task.finishRun_closed fun _ => hm, Task.finishRun_closed hnested]
        show Step.Alike L _ (Nested.judge closesBrackets i origin (.ok ()) k.endRun s') _
        rw [Nested.judge_kept (by unfold closesBrackets; rw [hii])]
        exact .ok rfl (Likeness.Interps.endRun hk hL hc) hs'
      · rw [Task.finishRun_open hm]
        show Step.Alike L _ (Nested.judge closesBrackets i origin (.error _) _ s') _
        rw [Nested.judge_broken (by unfold closesBrackets; rw [hii]; rfl)]
        exact .exhausted
    · intro f g k l s' t' hfg hk hs'
      show Step.Alike L _ (Nested.judge closesBrackets i origin (.error f) _ s') _
      cases hr : closesBrackets i origin (.error f) (k.failRun i.transient) with
      | true =>
        rw [Nested.judge_kept hr]
        exact .fault hfg (Likeness.Interps.failRun hk hL hi) hs'
      | false =>
        rw [Nested.judge_broken hr]
        exact .exhausted
  rw [Nested.watch_run_apply]
  show Step.Alike L _ ((runSource e source origin i s).attempt.bind _) _
  rw [runSource_outermost_of_nil hii hip, runSource_inner hji]
  unfold Step.later
  split
  · exact .left rfl hown
  · exact hown

end Outermost

/-- Nested work inside of a word that is executed outside of all sources, and inside of the same
word in a text. -/
theorem Nested.Alike.inside (text : String) (depth : Nat) :
    Nested.Alike (.inside text) (Wordstack.watched closesBrackets depth) (nested depth) := by
  have hL := Likeness.inside_sound text
  induction depth with
  | zero => exact ⟨fun _ _ _ => .exhausted, fun _ _ _ _ => .exhausted⟩
  | succ depth ih =>
    refine ⟨fun {inputs pending} source origin hle => ?_, fun url method body hle => ?_⟩
    · have hL' := hL.reading inputs pending
      have he' := ih.reading inputs hle
      cases inputs with
      | nil =>
        have hrun := watch_runSource_alike hL' he' rfl (List.cons_ne_nil _ _)
          (Nat.le_zero.mp hle) source origin fun url method body =>
            Network.send (nested depth) url method body
        exact hrun.mono (Likeness.le_ended rfl origin) fun _ _ => id
      | cons input inputs =>
        have hrun := Task.Alike.runSource hL' he' ⟨nofun, nofun⟩ source origin
        exact watch_run _ (nested (depth + 1)) hrun fun _ _ => Nat.zero_le _
    · exact Task.Alike.send rfl
        (fun _ pending => .exact (Likeness.serving_sound _ pending) rfl rfl depth) url method body

/-! ## Runs of one word -/

/-- Resolves a name and dispatches its word; `l` is where the name stands. -/
def Task.readWord (e : Nested) (name : String) (l : Option Location) : Task Unit := do
  let w ← Task.lift (← Task.view fun i s => i.resolve s name l)
  Task.call (dispatch e w l)

/-- Words are resolved and dispatched alike inside and outside of a text. -/
theorem Task.Alike.readWord {L : Likeness} {e e' : Nested} (hL : L.Sound)
    (he : Nested.Alike L e e') (name : String) {l l' : Option Location}
    (hl : L.loose = false → l = l') :
    Task.Alike L L (· = ·) (Task.readWord e name l) (Task.readWord e' name l') := by
  unfold Task.readWord
  refine ((viewing fun hi hs => resolve hL hi hs name hl).bind fun _ _ h => lift h).bind ?_
  rintro v w ⟨hvw, hb⟩
  exact (dispatch hL he hvw (fun h => hb (hL.blind h)) hl).call

/-- The end of the source comes next where nothing is left to be read. -/
theorem Scanner.next_nil {sc : Scanner} (h : sc.rest = []) :
    ∃ t sc', sc.next = (.ok t, sc') ∧ t.kind = .eos := by
  unfold Scanner.next
  rw [h]
  exact ⟨_, _, rfl, rfl⟩

theorem Scanner.tokensWithin_nil {bound : Nat} {sc : Scanner} {stop : Token}
    (h : (sc.tokensWithin (bound + 1)).tokens = [])
    (hs : (sc.tokensWithin (bound + 1)).stop = .ok stop) :
    ∃ eos sc', sc.next = (.ok eos, sc') ∧ eos.kind = .eos := by
  unfold Scanner.tokensWithin at h hs
  generalize sc.next = next at h hs ⊢
  obtain ⟨o, sc'⟩ := next
  cases o with
  | error f => cases hs
  | ok t =>
    by_cases hk : t.kind = .eos
    · exact ⟨t, sc', rfl, hk⟩
    · simp only [if_neg hk] at h
      cases h

/-- A text that consists of one token is read in two steps. -/
theorem tokenize_one {text : String} {origin : Location} {t : Token}
    (h : tokenize text origin = .ok [t]) :
    ∃ bound sc₁ eos sc₂, (Scanner.start text origin).rest.length = bound + 1 ∧ t.kind ≠ .eos ∧
      (Scanner.start text origin).next = (.ok t, sc₁) ∧ sc₁.next = (.ok eos, sc₂) ∧
      eos.kind = .eos := by
  generalize hsc : Scanner.start text origin = sc
  unfold tokenize at h
  rw [hsc] at h
  obtain ⟨stop, hstop, htokens⟩ : ∃ stop, sc.tokens.stop = .ok stop ∧ sc.tokens.tokens = [t] := by
    simp only at h
    split at h
    · rename_i stop hstop
      exact ⟨stop, hstop, Except.ok.inj h⟩
    · cases h
  unfold Scanner.tokens Scanner.tokensWithin at hstop htokens
  cases hn : sc.next with
  | mk o sc₁ =>
    rw [hn] at hstop htokens
    cases o with
    | error f => cases hstop
    | ok u =>
      by_cases hk : u.kind = .eos
      · simp only [if_pos hk] at htokens
        cases htokens
      simp only [if_neg hk] at hstop htokens
      obtain ⟨rfl, hrest⟩ := List.cons.inj htokens
      cases hlen : sc.rest.length with
      | zero =>
        obtain ⟨v, sc', hv, hvk⟩ := Scanner.next_nil (List.length_eq_zero_iff.mp hlen)
        rw [hn] at hv
        cases hv
        exact absurd hvk hk
      | succ bound =>
        rw [hlen] at hstop hrest
        obtain ⟨eos, sc₂, he, hek⟩ := Scanner.tokensWithin_nil hrest hstop
        exact ⟨bound, sc₁, eos, sc₂, rfl, hk, rfl, he, hek⟩

section Reading

variable {e : Nested} {i : Interp} {s : Store} {text : String} {origin : Location} {t : Token}

theorem finish_handleToken_word (hk : t.kind = .word) (hc : i.compiling = false) :
    (handleToken e t).finish i s =
      (Task.readWord e t.text (some t.location)).finish i s := by
  unfold handleToken Task.readWord
  rw [hk]
  simp only [Task.finish_bind, Task.finish_view, Outcome.bind_ok]
  cases i.resolve s t.text (some t.location) with
  | error f => rfl
  | ok w =>
    rw [Task.lift, Task.finish_pure, Outcome.bind_ok, Outcome.bind_ok, Task.finish_handOn]
    unfold handleWord
    rw [Task.finish_bind, Task.finish_interp, Outcome.bind_ok, hc]

theorem finish_handleToken_eos (hk : t.kind = .eos) (hc : i.compiling = false) :
    (handleToken e t).finish i s = .ended (.ok ()) i s := by
  unfold handleToken
  rw [hk]
  simp only [Task.finish_bind, Task.finish_interp, Outcome.bind_ok, hc]
  rfl

/-- Reading on once a token was handled. -/
def finishToken (e : Nested) (bound : Nat) (t : Token) (sc : Scanner) :
    Except Fault Unit → Interp → Store → Outcome (Option (Fault × Scanner))
  | .ok _, i, s =>
    (if t.kind = .eos then pure none else runTokens e bound sc : Task _).finish
      (i.moved i.inputs i.call (some t.location)) s
  | .error f, i, s => .ended (.ok (some (f, sc))) i s

theorem finish_runTokens_next {bound : Nat} {sc sc' : Scanner} (h : sc.next = (.ok t, sc')) :
    (runTokens e (bound + 1) sc).finish i s =
      ((handleToken e t).finish i s).attempt.bind (finishToken e bound t sc') := by
  rw [runTokens, h]
  simp only
  rw [Task.finish_bind, Task.finish_attempt, Task.finish_call]
  refine congrArg (Outcome.bind _) (funext fun outcome => ?_)
  cases outcome with
  | ok => rfl
  | error f => rfl

theorem finish_runScanner {sc : Scanner} (hr : i.recovery = none) :
    (runScanner e sc).finish i s =
      ((runAllTokens e sc).finish i s).bind fun stopped i s =>
        match stopped with
        | none => .ended (.ok ()) i s
        | some (f, _) => .ended (.fault f) i s := by
  unfold runScanner
  rw [Task.finish_bind, Task.finish_interp, Outcome.bind_ok, hr]
  simp only
  rw [Task.finish_bind, Task.finish_call]
  refine congrArg (Outcome.bind _) (funext fun stopped => ?_)
  cases stopped with
  | none => rfl
  | some stopped => rfl

/-- The end of reading a source of one word, from how the word itself has ended. -/
inductive ReadsWord : Outcome Unit → Outcome Unit → Prop
  | ok {j : Interp} {u : Store} (previous : Option Location) :
      ReadsWord (.ended (.ok ()) j u) (.ended (.ok ()) (j.moved j.inputs j.call previous) u)
  | fault {f : Fault} {j : Interp} {u : Store} :
      ReadsWord (.ended (.fault f) j u) (.ended (.fault f) j u)
  | exhausted {j : Interp} {u : Store} :
      ReadsWord (.ended .exhausted j u) (.ended .exhausted j u)
  | hung {u : Store} : ReadsWord (.hung u) (.hung u)

theorem finish_runScanner_word (h : tokenize text origin = .ok [t]) (hk : t.kind = .word)
    (hc : i.compiling = false) (hr : i.recovery = none)
    (hend : ∀ j u, (Task.readWord e t.text (some t.location)).finish i s = .ended (.ok ()) j u →
      j.compiling = false) :
    ReadsWord ((Task.readWord e t.text (some t.location)).finish i s)
      ((runScanner e (Scanner.start text origin)).finish i s) := by
  obtain ⟨bound, sc₁, eos, sc₂, hlen, hne, hnext, heos, hkeos⟩ := tokenize_one h
  rw [finish_runScanner hr]
  unfold runAllTokens
  rw [hlen, finish_runTokens_next hnext, finish_handleToken_word hk hc]
  cases hx : (Task.readWord e t.text (some t.location)).finish i s with
  | hung u => exact .hung
  | ended r j u =>
    cases r with
    | exhausted => exact .exhausted
    | fault f => exact .fault
    | ok =>
      have hj : (j.moved j.inputs j.call (some t.location)).compiling = false := hend j u hx
      have hread : (runTokens e (bound + 1) sc₁).finish (j.moved j.inputs j.call (some t.location))
          u = .ended (.ok none) (j.moved j.inputs j.call (some eos.location)) u := by
        rw [finish_runTokens_next heos, finish_handleToken_eos hkeos hj, Outcome.attempt_ok,
          Outcome.bind_ok, finishToken, if_pos hkeos]
        rfl
      rw [Outcome.attempt_ok, Outcome.bind_ok, finishToken, if_neg hne, hread]
      exact .ok (some eos.location)

end Reading

/-! ## Agreement -/

/-- The text consists of one word. -/
def IsWord (text : String) : Prop :=
  ∃ t, tokenize text .origin = .ok [t] ∧ t.kind = .word ∧ t.text = text

/-- How a word ends when it is executed by name, and when a source is run that consists of it. -/
inductive WordAgreement (text : String) : Outcome Unit → Outcome Unit → Prop
  | ok {j k : Interp} {t u : Store} (hm : j.marks = []) (hs : k.stack = j.stack) :
      WordAgreement text (.ended (.ok ()) j t) (.ended (.ok ()) k u)
  /-- Only the run is over where a bracket is left open. -/
  | bracket {j k : Interp} {t u : Store} {previous : Option Location} (hm : j.marks ≠ [])
      (hs : k.stack = j.stack) :
      WordAgreement text (.ended (.ok ()) j t)
        (.ended (.fault (.unmatchedBracket text "[" previous)) k u)
  /-- The faults are the same but for the texts and places that they name. -/
  | fault {f g : Fault} {j k : Interp} {t u : Store} (hf : f.blur = g.blur)
      (hs : k.stack = j.stack) : WordAgreement text (.ended (.fault f) j t) (.ended (.fault g) k u)
  | hung {t u : Store} : WordAgreement text (.hung t) (.hung u)

/-- A word executed by name on a machine that gives up when an outermost run inside of the word
fails for an open bracket. -/
def executeWatched (depth : Nat) (name : String) : Task Unit := do
  Task.call (initializePending (nested depth))
  Task.readWord (watched closesBrackets depth) name none

section Agreement

variable {depth : Nat} {i : Interp} {s : Store} {text : String} {t : Token}

/-- A run that has handled its word, and the word that has ended with the same brackets open. -/
theorem finishRun_agrees {saved : Transient} {j l : Interp} {u v : Store}
    (hm : l.marks = j.marks) (hs : l.stack = j.stack) (hin : l.inputs = [text]) :
    WordAgreement text (.ended (.ok ()) j u)
      ((Task.finishRun true saved (.ok ())).finish l v) := by
  by_cases h : j.marks = []
  · rw [Task.finish_finishRun_closed fun _ => hm.trans h]
    exact .ok h hs
  · rw [Task.finish_finishRun_open fun hl => h (hm.symm.trans hl)]
    rw [show l.topInput = text by unfold Interp.topInput; rw [hin]; rfl]
    exact .bracket h hs

/-- The machine itself ends a word as the watched one does. -/
theorem readWord_watched (depth : Nat) (text : String) (hi : i.WellCompiled ∧ i.Settled) :
    Outcome.Alike (.keeping i false fun i => i.WellCompiled ∧ i.Settled) (· = ·)
      ((Task.readWord (watched closesBrackets depth) text none).finish i s)
      ((Task.readWord (nested depth) text none).finish i s) := by
  have hL := Likeness.keeping_sound i false (Interp.settled_invariant 0)
  have he : Nested.Alike (.keeping i false fun i => i.WellCompiled ∧ i.Settled)
      (watched closesBrackets depth) (nested depth) :=
    .watched hL rfl (fun _ _ => Nat.zero_le _) depth
  exact (Task.Alike.readWord hL he text (l := none) fun _ => rfl).finish
    (Likeness.keeping_self i false hi nofun) (.refl nofun nofun)

/-- The watched machine on a word outside of all sources, and the machine itself on the same word in
its source. -/
theorem readWord_inside (depth : Nat) (text : String) (hin : i.inputs = []) (hp : i.pending = [])
    (hi : i.Plain) (hs : s.Blind) (input : String) (l : Option Location) :
    Outcome.Alike (.inside input) (· = ·)
      ((Task.readWord (watched closesBrackets depth) text none).finish i s)
      ((Task.readWord (nested depth) text l).finish (i.beginRun input) s) := by
  have hidle : i.Idle := hi.1.2 hin
  have hread : Task.Alike (.inside input) (.inside input) (· = ·)
      (Task.readWord (watched closesBrackets depth) text none)
      (Task.readWord (nested depth) text l) :=
    .readWord (Likeness.inside_sound input) (.inside input depth) text nofun
  refine hread.finish ⟨rfl, congrArg (input :: ·) hin, ⟨hin, ?_, hi, ?_⟩, nofun, rfl⟩
    (.refl (fun _ => hs) nofun)
  · rw [hp]
    exact Nat.le_refl 0
  · rw [hidle.definition]
    exact nofun

/-- The ends of the run and of the machine itself, from the end of the watched machine. -/
theorem agrees_of_watched {saved : Transient} {w x y z : Outcome Unit}
    (hx : ∀ j u, w ≠ .ended .exhausted j u)
    (hsame : Outcome.Alike (.keeping i false fun i => i.WellCompiled ∧ i.Settled) (· = ·) w x)
    (hinside : Outcome.Alike (.inside text) (· = ·) w y) (hread : ReadsWord y z) :
    WordAgreement text x (z.attempt.bind fun o i s => (Task.finishRun true saved o).finish i s) := by
  have hL := Likeness.keeping_sound i false (Interp.settled_invariant 0)
  cases hinside with
  | exhausted => exact absurd rfl (hx _ _)
  | hung =>
    cases hsame
    cases hread
    exact .hung
  | fault hfg hjk =>
    obtain ⟨v, rfl, -⟩ := hsame.ended hL rfl Result.fault_ne_exhausted
    cases hread
    exact .fault hfg (hjk.view Interp.stack fun _ _ => rfl)
  | @ok _ _ j k _ u _ hjk =>
    obtain ⟨v, rfl, -⟩ := hsame.ended hL rfl Result.ok_ne_exhausted
    have hstack : k.stack = j.stack := hjk.view Interp.stack fun _ _ => rfl
    have hmarks : k.marks = j.marks := hjk.view Interp.marks fun _ _ => rfl
    cases hread with
    | ok previous => exact finishRun_agrees hmarks hstack hjk.inputs

/-- The same agreement once no modules are pending. -/
theorem readWord_agrees (hin : i.inputs = []) (hp : i.pending = []) (hi : i.Plain) (hs : s.Blind)
    (hw : tokenize text .origin = .ok [t]) (hk : t.kind = .word) (ht : t.text = text)
    (hx : ∀ j u, (Task.readWord (watched closesBrackets depth) text none).finish i s ≠
      .ended .exhausted j u) :
    WordAgreement (Scanner.start text .origin).input
      ((Task.readWord (nested depth) text none).finish i s)
      ((Task.ownRun (nested depth) true (Scanner.start text .origin)).finish i s) := by
  have hidle : i.Idle := hi.1.2 hin
  have hinside := readWord_inside depth text hin hp hi hs (Scanner.start text .origin).input
    (some t.location)
  -- No definition is open once the word is over, so the end of the source is read after it.
  have hread : ReadsWord
      ((Task.readWord (nested depth) t.text (some t.location)).finish
        (i.beginRun (Scanner.start text .origin).input) s)
      ((runScanner (nested depth) (Scanner.start text .origin)).finish
        (i.beginRun (Scanner.start text .origin).input) s) := by
    refine finish_runScanner_word hw hk hidle.compiling hi.2 fun k u hend => ?_
    rw [ht] at hend
    rw [hend] at hinside
    generalize (Task.readWord (watched closesBrackets depth) text none).finish i s = w
      at hx hinside
    cases hinside with
    | exhausted => exact absurd rfl (hx _ _)
    | ok _ hjk _ =>
      rw [hjk.view Interp.compiling fun _ _ => rfl]
      exact (hjk.fits.holds.1.2 hjk.fits.inputs).compiling
  rw [ht] at hread
  rw [Task.finish_ownRun]
  exact agrees_of_watched hx (readWord_watched depth text hi.1) hinside hread

/-- As long as no run inside of it fails for an open bracket, a word that is executed by name ends as
a source does that consists of it: with the same values on the stack, and the same fault but for
texts and places. Only the source is refused if the word leaves a bracket open. -/
theorem executeWord_agrees_with_run (hin : i.inputs = []) (hi : i.Settled) (hr : i.recovery = none)
    (hs : s.Blind) (hw : IsWord text)
    (hx : ∀ j u, (executeWatched depth text).finish i s ≠ .ended .exhausted j u) :
    WordAgreement (Scanner.start text .origin).input
      ((executeWord (nested depth) text).finish i s)
      ((runSource (nested depth) text .origin).finish i s) := by
  obtain ⟨t, htokens, hk, ht⟩ := hw
  have hplain : i.Plain := ⟨⟨hi.wellCompiled hin, hi⟩, hr⟩
  have hname : ∀ e : Nested,
      (do
        Task.call (initializePending (nested depth))
        Task.readWord e text none : Task Unit).finish i s =
      ((initializePending (nested depth)).finish i s).bind fun _ i s =>
        (Task.readWord e text none).finish i s :=
    fun e => by rw [Task.finish_bind, Task.finish_call]
  have hword : (executeWord (nested depth) text).finish i s = _ := hname (nested depth)
  have hwatched : (executeWatched depth text).finish i s = _ :=
    hname (watched closesBrackets depth)
  rw [finish_runSource_outermost hin, hword]
  rw [hwatched] at hx
  cases hp : (initializePending (nested depth)).finish i s with
  | hung u => exact .hung
  | ended r i₀ s₀ =>
    rw [hp] at hx
    cases r with
    | exhausted => exact absurd rfl (hx _ _)
    | fault f => exact .fault rfl rfl
    | ok =>
      have hL := Likeness.keeping_sound i true (Interp.plain_invariant 0)
      have hself := Task.Alike.initializePending hL (.exact hL rfl rfl depth)
      obtain ⟨hfits, hs₀⟩ := hself.keeps hplain
        (fun _ => ⟨by rw [(hi hin).definition]; exact nofun, hs⟩) hp Result.ok_ne_exhausted
      exact readWord_agrees ((hfits.inputs_eq rfl).trans hin) (initializePending_empties hp) hfits.holds
        (hs₀ rfl) htokens hk ht hx

end Agreement

/-- A word that is executed by name once it was defined on a standard interpreter. -/
theorem exists_defined_word : ∃ i s j t k u,
    Interp.standard (.emptyCore []) .emptyCore [] = .ok (i, s) ∧
    (runSource (nested 1) ": F [ 1 ] ;" .origin).finish i s = .ended (.ok ()) j t ∧
    j.recovery = none ∧ (executeWatched 1 "F").finish j t = .ended (.ok ()) k u := by
  have hrun : ((Interp.standard (.emptyCore []) .emptyCore []).toOption.any fun p =>
      ((runSource (nested 1) ": F [ 1 ] ;" .origin).finish p.1 p.2).isOk fun j t =>
        j.recovery.isNone &&
          ((executeWatched 1 "F").finish j t).isOk fun _ _ => true) = true := by
    decide +kernel
  obtain ⟨⟨i, s⟩, hmade, hrun⟩ := Except.exists_of_any hrun
  obtain ⟨j, t, hj, hrun⟩ := Outcome.exists_of_isOk hrun
  obtain ⟨hr, hword⟩ := Bool.and_eq_true_iff.mp hrun
  obtain ⟨k, u, hk, -⟩ := Outcome.exists_of_isOk hword
  exact ⟨i, s, j, t, k, u, hmade, hj, Option.isNone_iff_eq_none.mp hr, hk⟩

theorem executeWord_agrees_with_run_defined : ∃ i s j t,
    Interp.standard (.emptyCore []) .emptyCore [] = .ok (i, s) ∧
    (runSource (nested 1) ": F [ 1 ] ;" .origin).finish i s = .ended (.ok ()) j t ∧
    WordAgreement "F" ((executeWord (nested 1) "F").finish j t)
      ((runSource (nested 1) "F" .origin).finish j t) := by
  obtain ⟨i, s, j, t, k, u, hmade, hrun, hr, hword⟩ := exists_defined_word
  have hnew : i.New := (Interp.made_of_standard hmade).new
  have hblind : s.Blind := (Interp.made_of_standard hmade).blind Store.emptyCore_blind
  have hcalls : Calls (nested 1) i s j t := .call (.run _ _) .start hrun Result.ok_ne_exhausted
  obtain ⟨hin, hj⟩ := hcalls.settled hnew
  have hF : IsWord "F" := ⟨_, rfl, rfl, rfl⟩
  refine ⟨i, s, j, t, hmade, hrun, ?_⟩
  exact executeWord_agrees_with_run hin hj hr (hcalls.blind hnew hblind) hF
    fun _ _ h => by rw [hword] at h; cases h

/-- Code that fails where its word is not called from a text. -/
def Native.requireText : Native Unit :=
  .ask .callLocation fun (l : Option Location) =>
    match l with
    | some _ => .done ()
    | none => .fail (.thrown "not called from a text")

/-- A module of one word, whose code is not blind. -/
def Module.places : Module :=
  let here := Word.direct { name := "HERE" } false .requireText []
  { name := "places", words := [here], exports := ["HERE"] }

/-- A word that opens a bracket can be executed by name only, and one whose code wants to be called
from a text only in a source. -/
theorem executeWord_may_disagree_with_run :
    (IsWord "F" ∧ ∃ i s j t k u f l v,
      Interp.standard (.emptyCore []) .emptyCore [] = .ok (i, s) ∧
      (runSource (nested 1) ": F [ ;" .origin).finish i s = .ended (.ok ()) j t ∧
      j.recovery = none ∧
      (executeWord (nested 1) "F").finish j t = .ended (.ok ()) k u ∧
      (runSource (nested 1) "F" .origin).finish j t = .ended (.fault f) l v) ∧
    (IsWord "HERE" ∧ ∃ i s f k u l v,
      Interp.standard (.emptyCore [.places]) .emptyCore [1] = .ok (i, s) ∧ i.recovery = none ∧
      (executeWord (nested 1) "HERE").finish i s = .ended (.fault f) k u ∧
      (runSource (nested 1) "HERE" .origin).finish i s = .ended (.ok ()) l v) := by
  have hbracket : ((Interp.standard (.emptyCore []) .emptyCore []).toOption.any fun p =>
      ((runSource (nested 1) ": F [ ;" .origin).finish p.1 p.2).isOk fun j t =>
        j.recovery.isNone && (((executeWord (nested 1) "F").finish j t).isOk fun _ _ => true) &&
          ((runSource (nested 1) "F" .origin).finish j t).isFault fun _ _ => true) = true := by
    decide +kernel
  have hplace : ((Interp.standard (.emptyCore [.places]) .emptyCore [1]).toOption.any fun p =>
      p.1.recovery.isNone &&
        (((executeWord (nested 1) "HERE").finish p.1 p.2).isFault fun _ _ => true) &&
          ((runSource (nested 1) "HERE" .origin).finish p.1 p.2).isOk fun _ _ => true) = true := by
    decide +kernel
  refine ⟨⟨⟨_, rfl, rfl, rfl⟩, ?_⟩, ⟨_, rfl, rfl, rfl⟩, ?_⟩
  · obtain ⟨⟨i, s⟩, hmade, hrun⟩ := Except.exists_of_any hbracket
    obtain ⟨j, t, hj, hends⟩ := Outcome.exists_of_isOk hrun
    rw [Bool.and_eq_true, Bool.and_eq_true] at hends
    obtain ⟨⟨hr, hword⟩, hrun⟩ := hends
    obtain ⟨k, u, hk, -⟩ := Outcome.exists_of_isOk hword
    obtain ⟨f, l, v, hl, -⟩ := Outcome.exists_of_isFault hrun
    exact ⟨i, s, j, t, k, u, f, l, v, hmade, hj, Option.isNone_iff_eq_none.mp hr, hk, hl⟩
  · obtain ⟨⟨i, s⟩, hmade, hends⟩ := Except.exists_of_any hplace
    rw [Bool.and_eq_true, Bool.and_eq_true] at hends
    obtain ⟨⟨hr, hword⟩, hrun⟩ := hends
    obtain ⟨f, k, u, hk, -⟩ := Outcome.exists_of_isFault hword
    obtain ⟨l, v, hl, -⟩ := Outcome.exists_of_isOk hrun
    exact ⟨i, s, f, k, u, l, v, hmade, Option.isNone_iff_eq_none.mp hr, hk, hl⟩

end Wordstack
