import Wordstack.Machine.Run
import Wordstack.Proofs.Machine.Words

/-!
# Runs in lockstep

- **Pending modules** (`Task.Alike.initializePending`).
- **Tokens** (`Task.Alike.handleToken`, `Task.Alike.runTokens`): the same tokens are read on both
  sides, and what becomes of each is alike.
- **Runs** (`Task.Alike.runScanner`, `Task.Alike.runSource`): a run whose texts in progress make it
  the outermost one on both sides or on none.
-/

namespace Wordstack

/-! ## Tokens without their places -/

/-- The token without the location that it was read from, if that may differ. -/
def Token.blur (loose : Bool) (t : Token) : Token := { t with location := t.location.blur loose }

namespace Token

variable {loose : Bool} {t t' : Token}

theorem kind_eq_of_blur (h : t.blur loose = t'.blur loose) : t.kind = t'.kind := by
  have hkind := congrArg kind h
  exact hkind

theorem text_eq_of_blur (h : t.blur loose = t'.blur loose) : t.text = t'.text := by
  have htext := congrArg text h
  exact htext

theorem location_eq_of_blur (h : t.blur loose = t'.blur loose) :
    t.location.blur loose = t'.location.blur loose := congrArg location h

end Token

/-! ## The parts of a run -/

namespace Task

/-- The end of a run. -/
def closeRun (saved : Transient) : Except Fault Unit → Task Unit
  | .ok _ => Task.update Interp.endRun
  | .error f => do
    Task.update (Interp.failRun saved)
    Task.throw f

/-- The run of a source itself, once no modules are pending anymore. -/
def ownRun (e : Nested) (isOutermost : Bool) (sc : Scanner) : Task Unit := do
  let saved ← Task.view fun i _ => i.transient
  Task.update (Interp.beginRun sc.input)
  let outcome ← Task.attempt (do runScanner e sc; checkBrackets isOutermost)
  Task.closeRun saved outcome

end Task

theorem runSource_outermost {e : Nested} {source : String} {origin : Location} {i : Interp}
    {s : Store} (h : i.inputs = []) :
    runSource e source origin i s =
      (do
        Task.call (initializePending e)
        Task.ownRun e true (Scanner.start source origin) : Task Unit) i s := by
  unfold runSource
  rw [Task.bind_apply]
  simp only [Task.view, h]
  rfl

theorem runSource_inner {e : Nested} {source : String} {origin : Location} {i : Interp}
    {s : Store} (h : i.inputs ≠ []) :
    runSource e source origin i s =
      Task.ownRun e false (Scanner.start source origin) i s := by
  unfold runSource
  rw [Task.bind_apply]
  simp only [Task.view, List.isEmpty_eq_false_iff.mpr h]
  rfl

/-! ## The end of a run -/

namespace Task

/-- The end of a run whose tokens have been handled. -/
def finishRun (isOutermost : Bool) (saved : Transient) : Except Fault Unit → Task Unit
  | .ok _ => fun i s =>
    if isOutermost && !i.marks.isEmpty then
      .done (.fault (.unmatchedBracket i.topInput "[" i.previous)) (i.failRun saved) s
    else .done (.ok ()) i.endRun s
  | .error f => fun i s => .done (.fault f) (i.failRun saved) s

section FinishRun

variable {isOutermost : Bool} {saved : Transient} {i : Interp} {s : Store}

theorem finishRun_closed (h : isOutermost = true → i.marks = []) :
    finishRun isOutermost saved (.ok ()) i s = .done (.ok ()) i.endRun s := by
  show (ite _ _ _ : Step Unit) = _
  rw [if_neg]
  intro hopen
  rw [Bool.and_eq_true] at hopen
  obtain ⟨ho, hm⟩ := hopen
  rw [h ho] at hm
  cases hm

theorem finishRun_open (h : i.marks ≠ []) :
    finishRun true saved (.ok ()) i s =
      .done (.fault (.unmatchedBracket i.topInput "[" i.previous)) (i.failRun saved) s := by
  show (ite _ _ _ : Step Unit) = _
  rw [if_pos (by simp [h])]

end FinishRun

theorem ownRun_apply {e : Nested} {isOutermost : Bool} {sc : Scanner} {i : Interp} {s : Store} :
    ownRun e isOutermost sc i s =
      ((runScanner e sc (i.beginRun sc.input) s).attempt).bind
        (finishRun isOutermost i.transient) := by
  have hstep : ∀ x : Step Unit,
      ((x.bind fun _ => checkBrackets isOutermost).attempt).bind (closeRun i.transient) =
        x.attempt.bind (finishRun isOutermost i.transient) := by
    intro x
    induction x with
    | done r j t =>
      cases r with
      | ok =>
        simp only [Step.bind, Step.attempt, checkBrackets, finishRun, Task.bind_apply, Task.interp,
          Task.view]
        split
        · rfl
        · rfl
      | fault f => rfl
      | exhausted => rfl
    | pause w s resume ih =>
      simp only [Step.bind, Step.attempt, ih]
  exact hstep _

end Task

theorem OpenDefinition.blur_compile (loose : Bool) (v : Word) (l : Location) (d : OpenDefinition) :
    (compile v l d).blur loose = compile (v.blur loose) (l.blur loose) (d.blur loose) := by
  unfold blur compile
  rw [Word.blurBody_append, Word.blurBody, Word.blurBody]

theorem Likeness.Interps.beginRun {L : Likeness} {i j : Interp} (hi : L.Interps i j) (hL : L.Sound)
    (text : String) :
    (L.reading (text :: L.inputs) L.pending).Interps (i.beginRun text) (j.beginRun text) := by
  refine ⟨?_, congrArg (text :: ·) hi.inputs, ⟨congrArg (text :: ·) hi.fits.inputs,
    hi.fits.pending, hL.holds.beginRun text hi.fits.holds, hi.fits.body⟩, hi.tight, hi.definition⟩
  rw [hi.rest]
  rfl

/-- A run without a fault ends on both sides. -/
theorem Likeness.Interps.endRun {L : Likeness} {i j : Interp} {text : String}
    (hi : (L.reading (text :: L.inputs) L.pending).Interps i j) (hL : L.Sound)
    (hc : i.compiling = false) : L.Interps i.endRun j.endRun := by
  refine ⟨?_, congrArg List.tail hi.inputs, ⟨congrArg List.tail hi.fits.inputs,
    hi.fits.pending, hL.holds.endRun hi.fits.holds hc, hi.fits.body⟩, hi.tight, hi.definition⟩
  rw [hi.rest]
  rfl

/-- What a run puts back when it fails is what it found. -/
theorem Likeness.Interps.failRun {L : Likeness} {i j i₀ j₀ : Interp} {text : String}
    (hi : (L.reading (text :: L.inputs) L.pending).Interps i j) (hL : L.Sound)
    (h₀ : L.Interps i₀ j₀) :
    L.Interps (i.failRun i₀.transient) (j.failRun j₀.transient) := by
  have htail : i.inputs.tail = L.first := congrArg List.tail hi.fits.inputs
  refine ⟨?_, congrArg List.tail hi.inputs, ⟨htail, hi.fits.pending,
    hL.holds.failRun h₀.fits.holds hi.fits.holds (htail.trans h₀.fits.inputs.symm),
    h₀.fits.body⟩, hi.tight, h₀.definition⟩
  rw [hi.rest, h₀.rest]
  rfl

/-! ## The end of a source -/

section Yields

variable (e : Nested) (i : Interp) (s : Store)

/-- The end of a source is not reached while a definition is open. -/
theorem handleToken_yields (t : Token) :
    (handleToken e t i s).Yields fun _ j => t.kind = .eos → j.compiling = false := by
  by_cases hk : t.kind = .eos
  · unfold handleToken
    rw [hk]
    show (ite (i.compiling = true) (Task.throw _) (pure ()) i s : Step Unit).Yields _
    split
    · trivial
    · rename_i hc
      exact fun _ => by simpa using hc
  · exact .of_forall (fun _ _ h => absurd h hk) _

theorem runTokens_yields (bound : Nat) (sc : Scanner) :
    (runTokens e bound sc i s).Yields fun stopped j => stopped = none → j.compiling = false := by
  induction bound generalizing sc i s with
  | zero => trivial
  | succ bound ih =>
    unfold runTokens
    obtain ⟨o, sc'⟩ := sc.next
    cases o with
    | error f => exact nofun
    | ok t =>
      refine (handleToken_yields e i s t).later.attempt_bind (fun _ j u hc => ?_) fun _ _ _ => nofun
      show (ite (t.kind = .eos) (pure none) (runTokens e bound sc')
        { j with previous := some t.location } u : Step _).Yields _
      split
      · rename_i hk
        exact fun _ => hc hk
      · exact ih ..

theorem runRecovering_yields (h : Handler) (left used : Nat) (sc : Scanner) :
    (runRecovering e h left used sc i s).Yields fun _ j => j.compiling = false := by
  induction left generalizing used sc i s with
  | zero => trivial
  | succ left ih =>
    unfold runRecovering
    refine (runTokens_yields e i s _ sc).later.bind fun stopped j u hc => ?_
    cases stopped with
    | none => exact hc rfl
    | some stopped =>
      obtain ⟨f, sc'⟩ := stopped
      exact (Step.Yields.of_forall (fun _ _ => trivial) _).bind fun _ _ _ _ => ih ..

/-- Whatever a source does, no definition is open when it was read to its end. -/
theorem runScanner_yields (sc : Scanner) :
    (runScanner e sc i s).Yields fun _ j => j.compiling = false := by
  unfold runScanner
  show (Step.bind (.done (.ok i) i s) _).Yields _
  rw [Step.bind]
  cases i.recovery with
  | some h => exact (runRecovering_yields e i s h _ 0 sc).later
  | none =>
    refine (runTokens_yields e i s _ sc).later.bind fun stopped j u hc => ?_
    cases stopped with
    | none => exact hc rfl
    | some stopped => trivial

end Yields

namespace Task.Alike

variable {L : Likeness} {e e' : Nested}

/-! ## Pending modules -/

theorem drainPending (hL : L.Sound) (he : Nested.Alike L e e') (bound : Nat) :
    Alike L L (· = ·) (drainPending e bound) (drainPending e' bound) := by
  induction bound generalizing L with
  | zero => exact pure rfl
  | succ bound ih =>
    unfold Wordstack.drainPending
    refine interp_bind fun {i j s t} hi hs => ?_
    rw [hi.view Interp.pending fun _ _ => rfl]
    cases hp : i.pending with
    | nil => exact (pure rfl).steps hi hs
    | cons m rest =>
      -- While the module is being initialized there is one pending module less.
      have hlt : rest.length < L.pending := by
        have := hi.fits.pending
        rw [hp] at this
        exact this
      have hle := Likeness.reading_le (Nat.le_of_lt hlt)
      have hL' := hL.reading L.inputs rest.length
      have he' := he.reading L.inputs (Nat.le_of_lt hlt)
      have hback : Alike (L.reading L.inputs rest.length) L (· = ·)
          (Task.update fun i => { i with pending := m :: i.pending })
          (Task.update fun i => { i with pending := m :: i.pending }) :=
        ⟨fun hi hs => .ok rfl (hi.update (fun i => { i with pending := m :: i.pending })
          (fun _ _ => rfl) (fun hf => ⟨hf.inputs, Nat.lt_of_le_of_lt hf.pending hlt,
            hL.holds.change hf.holds (.pending _), hf.body⟩) rfl rfl rfl) hs⟩
      have hrest : (L.reading L.inputs rest.length).Interps { i with pending := rest }
          { j with pending := rest } :=
        hi.update (fun i => { i with pending := rest }) (fun _ _ => rfl)
          (fun hf => ⟨hf.inputs, Nat.le_refl _, hL.holds.change hf.holds (.pending _), hf.body⟩)
          rfl rfl rfl
      have hinit : Alike (L.reading L.inputs rest.length) L (· = ·)
          (do
            match ← Task.attempt (Task.call (Wordstack.initializeModule e m)) with
            | .ok _ => Wordstack.drainPending e bound
            | .error f =>
              Task.update fun i => { i with pending := m :: i.pending }
              Task.throw f)
          (do
            match ← Task.attempt (Task.call (Wordstack.initializeModule e' m)) with
            | .ok _ => Wordstack.drainPending e' bound
            | .error f =>
              Task.update fun i => { i with pending := m :: i.pending }
              Task.throw f) := by
        refine (initializeModule hL' he' m).call.attempt_bind id fun a b hab => ?_
        cases hab with
        | ok => exact (ih hL' he').mono hle fun _ _ => id
        | error hf => exact hback.bind_to (.refl L) fun _ _ _ => throw hf
      exact hinit.steps hrest hs

theorem initializePending (hL : L.Sound) (he : Nested.Alike L e e') :
    Alike L L (· = ·) (initializePending e) (initializePending e') := by
  unfold Wordstack.initializePending
  refine interp_bind fun {i j s t} hi hs => ?_
  rw [hi.view Interp.pending fun _ _ => rfl]
  exact (drainPending hL he i.pending.length).steps hi hs

/-! ## Tokens -/

/-- A word is appended to the open definition, if there is one. -/
theorem extendDefinition (hL : L.Sound) (hin : L.first ≠ []) {v w : Word}
    (h : v.blur L.relocates = w.blur L.relocates) (hb : L.blind = true → v.Blind)
    {l l' : Location} (hl : l.blur L.relocates = l'.blur L.relocates) {i j : Interp}
    (hi : L.Interps i j) :
    L.Interps { i with definition := i.definition.map (compile v l) }
      { j with definition := j.definition.map (compile w l') } := by
  have hmap : ∀ (d : Option OpenDefinition) (v : Word) (l : Location),
      (d.map (compile v l)).map (OpenDefinition.blur L.relocates) =
        (d.map (OpenDefinition.blur L.relocates)).map
          (compile (v.blur L.relocates) (l.blur L.relocates)) := by
    intro d v l
    cases d with
    | none => rfl
    | some d => simp only [Option.map_some, OpenDefinition.blur_compile]
  refine ⟨?_, hi.inputs, ⟨hi.fits.inputs, hi.fits.pending,
    hL.holds.change hi.fits.holds (.extendDefinition _ (hi.fits.inputs ▸ hin)),
    fun hblind d hd => ?_⟩, hi.tight, ?_⟩
  · rw [hi.rest]
    rfl
  · obtain ⟨d', hd', rfl⟩ := Option.map_eq_some_iff.mp (Option.mem_def.mp hd)
    exact Word.blindBody_append.mpr ⟨hi.fits.body hblind d' hd', hb hblind, trivial⟩
  · rw [hmap, hmap, hi.definition, h, hl]

theorem handleWord (hL : L.Sound) (he : Nested.Alike L e e') (hin : L.first ≠ []) {v w : Word}
    (h : v.blur L.relocates = w.blur L.relocates) (hb : L.blind = true → v.Blind)
    {l l' : Location} (hl : l.blur L.relocates = l'.blur L.relocates) :
    Alike L L (· = ·) (handleWord e v l) (handleWord e' w l') := by
  unfold Wordstack.handleWord
  refine interp_bind fun {i j s t} hi hs => ?_
  have hcompiling := hi.view Interp.compiling fun _ _ => rfl
  have hdispatch := (dispatch hL he h (fun h => hb (hL.blind h))
    fun hloose => congrArg some (hL.location_eq hl hloose)).call.steps hi hs
  rw [hcompiling]
  cases i.compiling with
  | false => exact hdispatch
  | true =>
    have hextended := extendDefinition hL hin h hb hl hi
    obtain ⟨hd, hd'⟩ | ⟨d, d', hd, hd', -⟩ := hi.definitions
    · rw [hd, hd']
      exact hdispatch
    · rw [hd, hd'] at hextended ⊢
      exact .ok rfl hextended hs

theorem handleImmediate (hL : L.Sound) (he : Nested.Alike L e e') (hin : L.first ≠ [])
    {v w : Word} (h : v.blur L.relocates = w.blur L.relocates) (hb : L.blind = true → v.Blind)
    {l l' : Location} (hl : l.blur L.relocates = l'.blur L.relocates) :
    Alike L L (· = ·) (handleImmediate e v l) (handleImmediate e' w l') := by
  unfold Wordstack.handleImmediate
  refine bind (R := (· = ·)) ⟨fun {i j s t} hi hs => ?_⟩ fun _ _ _ =>
    (dispatch hL he h (fun h => hb (hL.blind h))
      fun hloose => congrArg some (hL.location_eq hl hloose)).call
  refine .ok rfl ?_ hs
  have hcompiling := hi.view Interp.compiling fun _ _ => rfl
  show L.Interps (ite _ _ _) (ite _ _ _)
  by_cases hc : i.compiling = true
  · rw [if_pos hc, if_pos (hcompiling.trans hc)]
    exact extendDefinition hL hin h hb hl hi
  · rw [if_neg hc, if_neg (hcompiling ▸ hc)]
    exact hi

variable {t t' : Token}

/-- A definition is not closed before the text goes on where none may be open. -/
theorem missingSemicolon (hL : L.Sound) (ht : t.blur L.relocates = t'.blur L.relocates)
    {i j : Interp} (hi : L.Interps i j) :
    L.fault (.missingSemicolon i.topInput (i.previous.or (some t.location)))
      (.missingSemicolon j.topInput (j.previous.or (some t'.location))) :=
  hL.fault rfl fun hloose => by
    rw [hi.eq hL hloose, hL.location_eq (Token.location_eq_of_blur ht) hloose]

theorem startDefinition (hL : L.Sound) (hin : L.first ≠ [])
    (ht : t.blur L.relocates = t'.blur L.relocates) :
    Alike L L (· = ·) (startDefinition t) (startDefinition t') := by
  unfold Wordstack.startDefinition
  refine interp_bind fun {i j s u} hi hs => ?_
  rw [hi.view Interp.compiling fun _ _ => rfl]
  split
  · exact .fault (missingSemicolon hL ht hi) hi hs
  · rename_i hc
    refine .ok rfl ⟨?_, hi.inputs, ⟨hi.fits.inputs, hi.fits.pending, ?_, fun _ d hd => ?_⟩,
      hi.tight, ?_⟩ hs
    · rw [hi.rest, Token.kind_eq_of_blur ht]
      rfl
    · exact hL.holds.change hi.fits.holds
        (.openDefinition _ _ (hi.fits.inputs ▸ hin) (by simpa using hc))
    · obtain rfl := Option.some.inj hd
      trivial
    · simp only [Option.map_some, OpenDefinition.blur, Token.text_eq_of_blur ht,
        Token.location_eq_of_blur ht]

theorem endDefinition (hL : L.Sound) (hin : L.first ≠ [])
    (ht : t.blur L.relocates = t'.blur L.relocates) :
    Alike L L (· = ·) (endDefinition t) (endDefinition t') := by
  unfold Wordstack.endDefinition
  refine interp_bind fun {i j s u} hi hs => ?_
  have hclose : Alike L L (· = ·)
      (Task.update fun i =>
        { i with compiling := false, memoDefinition := false, definition := none })
      (Task.update fun i =>
        { i with compiling := false, memoDefinition := false, definition := none }) := by
    refine ⟨fun hi hs => .ok rfl ⟨?_, hi.inputs, ⟨hi.fits.inputs, hi.fits.pending,
      hL.holds.change hi.fits.holds (.closeDefinition (hi.fits.inputs ▸ hin)),
      fun _ d hd => by simp at hd⟩, hi.tight, rfl⟩ hs⟩
    rw [hi.rest]
    rfl
  have hfault : Step.Alike L (· = ·)
      (Task.throw (α := Unit) (.extraSemicolon i.topInput (some t.location)) i s)
      (Task.throw (α := Unit) (.extraSemicolon j.topInput (some t'.location)) j u) :=
    .fault (hL.fault rfl fun hloose => by
      rw [hi.eq hL hloose, hL.location_eq (Token.location_eq_of_blur ht) hloose]) hi hs
  rw [hi.view Interp.compiling fun _ _ => rfl, hi.view Interp.memoDefinition fun _ _ => rfl]
  cases i.compiling with
  | false => exact hfault
  | true =>
    obtain ⟨hd, hd'⟩ | ⟨d, d', hd, hd', hdd⟩ := hi.definitions
    · rw [hd, hd']
      exact hfault
    · have hb : L.blind = true → d.word.Blind := fun hb => hi.fits.body hb d hd
      have hw := OpenDefinition.word_eq_of_blur hdd
      rw [hd, hd']
      cases i.memoDefinition with
      | true =>
        refine Task.Alike.steps ((current _).bind ?_) hi hs
        rintro m _ rfl
        exact bind (R := (· = ·)) ⟨fun hi hs => .ok rfl hi (hs.addMemoWords m hw hb)⟩
          fun _ _ _ => hclose
      | false =>
        refine Task.Alike.steps ((current _).bind ?_) hi hs
        rintro m _ rfl
        exact bind (R := (· = ·)) ⟨fun hi hs => .ok rfl hi (hs.addWord m hw hb)⟩
          fun _ _ _ => hclose

/-- Tokens that differ in their places at most are handled alike. -/
theorem handleToken (hL : L.Sound) (he : Nested.Alike L e e') (hin : L.first ≠ [])
    (ht : t.blur L.relocates = t'.blur L.relocates) :
    Alike L L (· = ·) (handleToken e t) (handleToken e' t') := by
  have hl := Token.location_eq_of_blur ht
  have hword : ∀ w : Word, w.Blind → Alike L L (· = ·)
      (Task.handOn (Wordstack.handleWord e w t.location))
      (Task.handOn (Wordstack.handleWord e' w t'.location)) :=
    fun w hw => (handleWord hL he hin rfl (fun _ => hw) hl).handOn
  have hbracket : ∀ w : Word, w.Blind → Alike L L (· = ·)
      (Task.handOn (Wordstack.handleImmediate e w t.location))
      (Task.handOn (Wordstack.handleImmediate e' w t'.location)) :=
    fun w hw => (handleImmediate hL he hin rfl (fun _ => hw) hl).handOn
  unfold Wordstack.handleToken
  rw [← Token.kind_eq_of_blur ht, ← Token.text_eq_of_blur ht]
  split
  · exact hword _ (by simp [Word.Blind])
  · exact hword _ (by simp [Word.Blind])
  · exact pure rfl
  · exact hword _ (by simp [Word.Blind])
  · exact hword _ (by simp [Word.Blind])
  · exact hbracket _ (by simp [Word.Blind])
  · exact hbracket _ (by simp [Word.Blind])
  · exact startDefinition hL hin ht
  · exact startDefinition hL hin ht
  · exact endDefinition hL hin ht
  · refine ((viewing fun hi hs => resolve hL hi hs t.text
      fun hloose => congrArg some (hL.location_eq hl hloose)).bind fun _ _ h => lift h).bind ?_
    rintro v w ⟨hvw, hb⟩
    exact (handleWord hL he hin hvw hb hl).handOn
  · refine interp_bind fun {i j s u} hi hs => ?_
    rw [hi.view Interp.compiling fun _ _ => rfl]
    split
    · exact .fault (missingSemicolon hL ht hi) hi hs
    · exact .ok rfl hi hs

/-- The token that was read is noted. -/
theorem notePrevious (hL : L.Sound) (ht : t.blur L.relocates = t'.blur L.relocates) :
    Alike L L (· = ·) (Task.update fun i => { i with previous := some t.location })
      (Task.update fun i => { i with previous := some t'.location }) := by
  refine ⟨fun {i j s u} hi hs => .ok rfl ⟨?_, hi.inputs, ⟨hi.fits.inputs, hi.fits.pending,
    hL.holds.change hi.fits.holds (.place i.call (some t.location)), hi.fits.body⟩,
    fun hloose => ⟨(hi.tight hloose).1, ?_⟩, hi.definition⟩ hs⟩
  · rw [hi.rest]
    rfl
  · simp only [hL.location_eq (Token.location_eq_of_blur ht) hloose]

/-- Where reading has stopped: at the same token, with faults that are alike. -/
def stopped (L : Likeness) : Option (Fault × Scanner) → Option (Fault × Scanner) → Prop :=
  Option.Rel fun a b => L.fault a.1 b.1 ∧ a.2 = b.2

theorem runTokens (hL : L.Sound) (he : Nested.Alike L e e') (hin : L.first ≠ []) (bound : Nat)
    (sc : Scanner) :
    Alike L L (stopped L) (runTokens e bound sc) (runTokens e' bound sc) := by
  induction bound generalizing sc with
  | zero => exact exhausted
  | succ bound ih =>
    unfold Wordstack.runTokens
    obtain ⟨o, sc'⟩ := sc.next
    cases o with
    | error f => exact pure (.some ⟨.refl _ _, rfl⟩)
    | ok t =>
      refine (handleToken hL he hin rfl).call.attempt.bind fun a b hab => ?_
      cases hab with
      | error hf => exact pure (.some ⟨hf, rfl⟩)
      | ok =>
        refine (notePrevious hL rfl).bind fun _ _ _ => ?_
        split
        · exact pure .none
        · exact ih sc'

theorem runRecovering (hL : L.Sound) (he : Nested.Alike L e e') (hin : L.first ≠ []) {h : Handler}
    (hh : Handler.Alike L.loose h h) (left used : Nat) (sc : Scanner) :
    Alike L L (· = ·) (runRecovering e h left used sc) (runRecovering e' h left used sc) := by
  induction left generalizing used sc with
  | zero =>
    unfold Wordstack.runRecovering
    refine interp_bind fun {i j s t} hi hs => ?_
    exact .fault (hi.fault hL (fun i => .tooManyAttempts i.topInput
      (Binary64.ofInt (used + 1 : Nat)) i.maxAttempts) fun _ _ => rfl) hi hs
  | succ left ih =>
    unfold Wordstack.runRecovering
    refine (runTokens hL he hin _ sc).call.bind fun a b hab => ?_
    cases hab with
    | none => exact pure rfl
    | @some p q hpq =>
      obtain ⟨f, sc₁⟩ := p
      obtain ⟨g, sc₂⟩ := q
      obtain ⟨hf, rfl⟩ := hpq
      have hcode := hh f g (hL.blurs ▸ hf)
      exact ((perform hL he hcode).callCode false).bind fun _ _ _ => ih (used + 1) sc₁

theorem runScanner (hL : L.Sound) (he : Nested.Alike L e e') (hin : L.first ≠ []) (sc : Scanner) :
    Alike L L (· = ·) (runScanner e sc) (runScanner e' sc) := by
  unfold Wordstack.runScanner
  refine interp_bind fun {i j s t} hi hs => ?_
  rw [hi.view Interp.recovery fun _ _ => rfl, hi.view Interp.maxAttempts fun _ _ => rfl]
  cases hr : i.recovery with
  | some h =>
    have hloose : L.loose = false := by
      cases hl : L.loose with
      | false => rfl
      | true => rw [hL.recovery hl i hi.fits.holds] at hr; simp at hr
    exact (runRecovering hL he hin (.self fun hl => by simp [hloose] at hl) _ _ sc).call.steps hi hs
  | none =>
    refine Task.Alike.steps ((runTokens hL he hin _ sc).call.bind fun a b hab => ?_) hi hs
    cases hab with
    | none => exact pure rfl
    | some hfg => exact throw hfg.1

/-! ## Runs -/

/-- Both runs end: with their tokens read and no definition open, or with their faults. -/
theorem finishRun (hL : L.Sound) (isOutermost : Bool) (text : String) {i₀ j₀ : Interp}
    (h₀ : L.Interps i₀ j₀) {a b : Except Fault Unit} {i j : Interp} {s t : Store}
    (hab : (L.reading (text :: L.inputs) L.pending).Results (· = ·) a b)
    (hc : a = .ok () → i.compiling = false)
    (hi : (L.reading (text :: L.inputs) L.pending).Interps i j)
    (hs : (L.reading (text :: L.inputs) L.pending).Stores s t) :
    Step.Alike L (· = ·) (Task.finishRun isOutermost i₀.transient a i s)
      (Task.finishRun isOutermost j₀.transient b j t) := by
  have hfail := Likeness.Interps.failRun hi hL h₀
  cases hab with
  | error hfault => exact .fault hfault hfail hs
  | ok =>
    show Step.Alike L _ (ite _ _ _) (ite _ _ _)
    rw [hi.view Interp.marks fun _ _ => rfl]
    split
    · have hfault := hi.fault (hL.reading (text :: L.inputs) L.pending)
        (fun i => .unmatchedBracket i.topInput "[" i.previous) fun _ _ => rfl
      exact .fault hfault hfail hs
    · exact .ok rfl (Likeness.Interps.endRun hi hL (hc rfl)) hs

theorem ownRun (hL : L.Sound) (he : Nested.Alike L e e') (isOutermost : Bool) (sc : Scanner) :
    Alike L L (· = ·) (Task.ownRun e isOutermost sc) (Task.ownRun e' isOutermost sc) := by
  refine ⟨fun {i j s t} hi hs => ?_⟩
  have hL' := hL.reading (sc.input :: L.inputs) L.pending
  have he' := he.reading (sc.input :: L.inputs) (Nat.le_refl L.pending)
  have hrun := (runScanner hL' he' (List.cons_ne_nil _ _) sc).steps (hi.beginRun hL sc.input) hs
  rw [Task.ownRun_apply, Task.ownRun_apply]
  exact hrun.attempt_bind_of_yields (runScanner_yields e _ _ sc) id
    (fun h hc hi' hs' => finishRun hL isOutermost sc.input hi (.ok h) (fun _ => hc) hi' hs')
    (fun h hi' hs' => finishRun hL isOutermost sc.input hi (.error h) nofun hi' hs')

/-- A run that is the outermost one on both sides or on none. -/
theorem runSource (hL : L.Sound) (he : Nested.Alike L e e')
    (hout : L.first = [] ↔ L.second = []) (source : String) (origin : Location) :
    Alike L L (· = ·) (runSource e source origin) (runSource e' source origin) := by
  refine ⟨fun {i j s t} hi hs => ?_⟩
  by_cases h : L.first = []
  · rw [runSource_outermost (hi.fits.inputs.trans h),
      runSource_outermost (hi.inputs.trans (hout.mp h))]
    exact ((initializePending hL he).call.bind fun _ _ _ => ownRun hL he true _).steps hi hs
  · rw [runSource_inner (hi.fits.inputs ▸ h), runSource_inner (hi.inputs ▸ mt hout.mpr h)]
    exact (ownRun hL he false _).steps hi hs

theorem executeWord (hL : L.Sound) (he : Nested.Alike L e e') (name : String) :
    Alike L L (· = ·) (executeWord e name) (executeWord e' name) := by
  unfold Wordstack.executeWord
  refine (initializePending hL he).call.bind fun _ _ _ => ?_
  refine ((viewing fun hi hs => resolve hL hi hs name fun _ => rfl).bind fun _ _ h =>
    lift h).bind ?_
  rintro v w ⟨hvw, hb⟩
  exact (dispatch hL he hvw (fun h => hb (hL.blind h)) fun _ => rfl).call

end Task.Alike

end Wordstack
