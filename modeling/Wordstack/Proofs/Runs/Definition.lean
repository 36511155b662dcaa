import Wordstack.Proofs.Runs.Tokens
import Wordstack.Proofs.Source.Rendering

/-!
# Reading definitions

- **Words of tokens** (`Token.word?`, `compiled`): what tokens stand for, which depends on the
  literals, the scopes and the dictionaries only (`SameNames`).
- **Handling tokens** (`finish_handleToken_of_word?`): a token that stands for a word is dispatched,
  or compiled into the open definition.
- **Definitions** (`Defines`, `finish_runSource_definition`): the run of a definition adds a word
  whose entries are the words of its body. Every source is the body of one
  (`defines_definitionText`).
-/

namespace Wordstack

/-! ## What tokens stand for -/

/-- The word that a token stands for. -/
def Token.word? (i : Interp) (s : Store) (t : Token) : Option Word :=
  match t.kind with
  | .str => some (.constant { name := "<string>" } (.str t.text))
  | .dotSymbol => some (.constant { name := "<dot-symbol>" } (.str t.text))
  | .startArray => some .openArray
  | .endArray => some .closeArray
  | .word => (i.resolve s t.text none).toOption
  | _ => none

/-- A token that can be compiled: it stands for a word, or nothing is done with it. Tokens that open
or close definitions or module blocks do neither. -/
def Token.Compiles (i : Interp) (s : Store) (t : Token) : Prop :=
  t.kind = .comment ∨ (t.word? i s).isSome = true

/-- The words that tokens are compiled to, each with its place. -/
def compiled (i : Interp) (s : Store) (ts : List Token) : List (Word × Location) :=
  ts.filterMap fun t => (t.word? i s).map fun w => (w, t.location)

/-- Names stand for the same in both states. -/
structure SameNames (i : Interp) (s : Store) (j : Interp) (t : Store) : Prop where
  readers : j.readers = i.readers
  scope : j.scope = i.scope
  modules : t.modules = s.modules

section Names

variable {i j : Interp} {s u : Store}

theorem SameNames.refl (i : Interp) (s : Store) : SameNames i s i s := ⟨rfl, rfl, rfl⟩

/-- What a text stands for is looked for among the literals first, and does not depend on where the
text is. -/
theorem Interp.toOption_resolve (i : Interp) (s : Store) (text : String) (l : Option Location) :
    (i.resolve s text l).toOption =
      ((i.literal? text).map (Word.constant { name := text })).or
        (i.scope.findSome? fun m => findIn? s.modules m text) := by
  unfold Interp.resolve Interp.findWord
  cases i.literal? text with
  | some v => rfl
  | none => cases i.scope.findSome? fun m => findIn? s.modules m text <;> rfl

theorem SameNames.literal?_eq (h : SameNames i s j u) (text : String) :
    j.literal? text = i.literal? text := by
  unfold Interp.literal?
  rw [h.readers]

theorem SameNames.toOption_resolve (h : SameNames i s j u) (text : String)
    (l l' : Option Location) :
    (j.resolve u text l').toOption = (i.resolve s text l).toOption := by
  rw [Interp.toOption_resolve, Interp.toOption_resolve, h.literal?_eq, h.scope, h.modules]

theorem SameNames.word?_eq (h : SameNames i s j u) (t : Token) : t.word? j u = t.word? i s := by
  unfold Token.word?
  rw [h.toOption_resolve t.text none none]

theorem SameNames.compiled_eq (h : SameNames i s j u) (ts : List Token) :
    compiled j u ts = compiled i s ts := by
  unfold compiled
  simp only [h.word?_eq]

theorem SameNames.compiles (h : SameNames i s j u) {ts : List Token}
    (hts : ∀ t ∈ ts, t.Compiles i s) : ∀ t ∈ ts, t.Compiles j u := by
  intro t ht
  unfold Token.Compiles
  rw [h.word?_eq]
  exact hts t ht

/-- What a token stands for does not depend on where it is. -/
theorem Token.word?_of_pair {t t' : Token} (h : t'.pair = t.pair) (i : Interp) (s : Store) :
    t'.word? i s = t.word? i s := by
  obtain ⟨hk, ht⟩ := Prod.mk.inj h
  unfold Token.word?
  rw [show t'.kind = t.kind from hk, show t'.text = t.text from ht]

theorem Token.compiles_of_pairs {ts us : List Token} (h : us.map Token.pair = ts.map Token.pair)
    (hts : ∀ t ∈ ts, t.Compiles i s) : ∀ u ∈ us, u.Compiles i s := by
  intro u hu
  obtain ⟨t, ht, he⟩ := List.mem_map.mp (h ▸ List.mem_map_of_mem hu)
  unfold Token.Compiles
  rw [Token.word?_of_pair he.symm, show u.kind = t.kind from congrArg Prod.fst he.symm]
  exact hts t ht

end Names

/-! ## Handling tokens -/

section Handling

variable {e : Nested} {i : Interp} {s : Store} {t : Token} {w : Word}

theorem finish_handleWord_idle (hc : i.compiling = false) (l : Location) :
    (handleWord e w l).finish i s = (dispatch e w (some l)).finish i s := by
  unfold handleWord
  rw [Task.finish_bind, Task.finish_interp, Outcome.bind_ok, hc]
  exact Task.finish_call ..

theorem finish_handleWord_compiling {d : OpenDefinition} (hc : i.compiling = true)
    (hd : i.definition = some d) (l : Location) :
    (handleWord e w l).finish i s =
      .ended (.ok ()) { i with definition := some (compile w l d) } s := by
  unfold handleWord
  rw [Task.finish_bind, Task.finish_interp, Outcome.bind_ok]
  conv_lhs => rw [hc, hd]
  rfl

/-- A token that stands for a word is handled as that word. -/
theorem finish_handleToken_of_word? (hw : t.word? i s = some w) :
    (handleToken e t).finish i s = (handleWord e w t.location).finish i s := by
  unfold Token.word? at hw
  unfold handleToken
  cases hk : t.kind with
  | word =>
    rw [hk] at hw
    have hresolve : i.resolve s t.text (some t.location) = .ok w :=
      eq_ok_of_toOption_eq_some (((SameNames.refl i s).toOption_resolve t.text none _).trans hw)
    simp only [Task.finish_bind, Task.finish_view, Outcome.bind_ok, hresolve]
    exact Task.finish_handOn ..
  | str | dotSymbol | startArray | endArray =>
    rw [hk] at hw
    obtain rfl := Option.some.inj hw
    exact Task.finish_handOn ..
  | _ =>
    rw [hk] at hw
    cases hw

theorem finish_handleToken_comment (hk : t.kind = .comment) :
    (handleToken e t).finish i s = .ended (.ok ()) i s := by
  unfold handleToken
  rw [hk]
  rfl

theorem Token.Compiles.cases (h : t.Compiles i s) :
    (∃ w, t.word? i s = some w) ∨ t.kind = .comment ∧ t.word? i s = none := by
  rcases h with hk | hw
  · exact .inr ⟨hk, by unfold Token.word?; rw [hk]⟩
  · exact .inl (Option.isSome_iff_exists.mp hw)

end Handling

/-! ## Reading a definition -/

/-- A source that defines a word of a name: its tokens between the opener and the closer are those of
a body, but for their places. -/
def Defines (source name : String) (body : List Token) : Prop :=
  ∃ opener inner closer, tokenize source .origin = .ok (opener :: (inner ++ [closer])) ∧
    opener.pair = (.startDef, name) ∧ inner.map Token.pair = body.map Token.pair ∧
    closer.kind = .endDef

/-- What a word is written with. -/
theorem IsWord.isBare {name : String} (h : IsWord name) :
    name.toList ≠ [] ∧ ∀ c ∈ name.toList, isBare c = true := by
  obtain ⟨t, ht, hk, htext⟩ := h
  have hreads := tokenize_iff_reads.mp ⟨[t], ht, rfl⟩
  rw [List.map_singleton, Token.lexeme, hk, htext] at hreads
  cases hreads with
  | next h =>
    have hlexes := lexes_of_lexed h
    generalize (unescape name.toList).dropWhile isGap = cs at hlexes
    generalize name.toList = text at hlexes
    cases hlexes with
    | dot => exact ⟨List.cons_ne_nil _ _, List.forall_mem_singleton.mpr rfl⟩
    | word hbare => exact ⟨List.cons_ne_nil _ _, hbare⟩

theorem noEntity_of_isBare {cs : List Char} (h : ∀ c ∈ cs, isBare c = true) : NoEntity cs := by
  have hsemicolon : ';' ∉ cs := fun hc => absurd (h ';' hc) (by decide)
  exact ⟨fun h => hsemicolon (h.subset (by decide)), fun h => hsemicolon (h.subset (by decide))⟩

/-- A body between a name and a semicolon, each on lines of its own. -/
def definitionText (name source : String) : String := ": " ++ name ++ "\n" ++ source ++ "\n;"

/-- Every source is the body of a definition, unless the name has a quote in it. -/
theorem defines_definitionText {name source : String} {body : List Token} (hname : IsWord name)
    (hquote : ∀ c ∈ name.toList, isQuote c = false) (hbody : tokenize source .origin = .ok body) :
    Defines (definitionText name source) name body := by
  obtain ⟨hnil, hbare⟩ := hname.isBare
  have hopener : Reads (':' :: ' ' :: name.toList) [(.startDef, name.toList)] := by
    have h : Lexes (':' :: ([' '] ++ name.toList ++ [])) .startDef name.toList [] := by
      refine .startDef (List.forall_mem_singleton.mpr rfl) hnil (fun c hc => ?_) (by simp [Stops])
      have := hbare c hc
      have := hquote c hc
      simp_all [isBare, isDefinitionName, isTerminator]
    rw [List.append_nil] at h
    exact .next (lexed_of_lexes h) (by decide) .nil
  have hcloser : Reads [';'] [(.endDef, [';'])] :=
    .next (lexed_of_lexes .endDef) (by decide) .nil
  have hall := (hopener.append (tokenize_iff_reads.mp ⟨body, hbody, rfl⟩)).append hcloser
  have htext : unescape (definitionText name source).toList =
      (':' :: ' ' :: name.toList) ++ '\n' :: unescape source.toList ++ '\n' :: [';'] := by
    have hlead : NoEntity (':' :: ' ' :: name.toList) :=
      .cons (.cons (noEntity_of_isBare hbare) (by decide)) (by decide)
    have e : (definitionText name source).toList =
        (':' :: ' ' :: name.toList) ++ '\n' :: source.toList ++ '\n' :: [';'] := by
      simp [definitionText]
    rw [e, unescape_append_cons (by decide), unescape_append_cons (by decide), hlead.unescape_eq]
    rfl
  rw [← htext, ← @tokenize_iff_reads _ .origin] at hall
  obtain ⟨tokens, htokens, hmap⟩ := hall
  rw [List.append_assoc, List.singleton_append] at hmap
  obtain ⟨opener, rest, rfl, hfirst, hmap⟩ := List.map_eq_cons_iff.mp hmap
  obtain ⟨inner, closers, rfl, hinner, hmap⟩ := List.map_eq_append_iff.mp hmap
  obtain ⟨closer, rfl, hlast⟩ := List.map_eq_singleton_iff.mp hmap
  refine ⟨opener, inner, closer, htokens, ?_, map_lexeme_eq_iff.mp hinner,
    congrArg Prod.fst hlast⟩
  have hpair : [opener].map Token.lexeme = [⟨.startDef, name, .origin⟩].map Token.lexeme :=
    congrArg ([·]) hfirst
  exact (List.cons.inj (map_lexeme_eq_iff.mp hpair)).1

section Compiling

variable {e : Nested} {i : Interp} {s : Store}

/-- While a definition is open the words of a body are appended to it. -/
theorem finish_readTokens_compiling {ts : List Token} {d : OpenDefinition}
    (hc : i.compiling = true) (hd : i.definition = some d) (hts : ∀ t ∈ ts, t.Compiles i s) :
    ∃ previous, (Task.readTokens e ts).finish i s =
      .ended (.ok ())
        { i with definition := some { d with body := d.body ++ compiled i s ts }, previous } s := by
  induction ts generalizing i d with
  | nil =>
    refine ⟨i.previous, ?_⟩
    rw [show compiled i s [] = [] from rfl, List.append_nil, ← hd]
    rfl
  | cons t ts ih =>
    obtain ⟨ht, hrest⟩ := List.forall_mem_cons.mp hts
    rw [finish_readTokens_cons, finish_readToken]
    rcases ht.cases with ⟨w, hword⟩ | ⟨hk, hnone⟩
    · rw [finish_handleToken_of_word? hword, finish_handleWord_compiling hc hd, Outcome.bind_ok,
        Outcome.bind_ok]
      let next : Interp :=
        { i with definition := some (compile w t.location d), previous := some t.location }
      have hnames : SameNames i s next s := ⟨rfl, rfl, rfl⟩
      obtain ⟨previous, hread⟩ := @ih next (compile w t.location d) hc rfl (hnames.compiles hrest)
      refine ⟨previous, hread.trans ?_⟩
      rw [hnames.compiled_eq ts]
      have hbody : compiled i s (t :: ts) = (w, t.location) :: compiled i s ts := by
        simp [compiled, hword]
      rw [hbody, compile, List.append_assoc, List.singleton_append]
    · rw [finish_handleToken_comment hk, Outcome.bind_ok]
      let next : Interp := { i with previous := some t.location }
      have hnames : SameNames i s next s := ⟨rfl, rfl, rfl⟩
      obtain ⟨previous, hread⟩ := @ih next d hc hd (hnames.compiles hrest)
      refine ⟨previous, hread.trans ?_⟩
      rw [hnames.compiled_eq ts, show compiled i s (t :: ts) = compiled i s ts by
        simp [compiled, hnone]]

theorem finish_handleToken_startDef {t : Token} (hk : t.kind = .startDef)
    (hc : i.compiling = false) :
    (handleToken e t).finish i s =
      .ended (.ok ())
        { i with
          definition := some { name := t.text, location := t.location }
          compiling := true
          memoDefinition := false } s := by
  unfold handleToken
  rw [hk]
  simp only [startDefinition]
  rw [Task.finish_bind, Task.finish_interp, Outcome.bind_ok, hc]
  conv_lhs => rw [hk]
  rfl

theorem finish_handleToken_endDef {t : Token} {d : OpenDefinition} {m : Nat} (hk : t.kind = .endDef)
    (hc : i.compiling = true) (hd : i.definition = some d) (hmemo : i.memoDefinition = false)
    (hm : i.current? = some m) :
    (handleToken e t).finish i s =
      .ended (.ok ()) { i with compiling := false, memoDefinition := false, definition := none }
        (s.addWord m d.word) := by
  have hcurrent : (Task.current "addWord").finish i s = .ended (.ok m) i s := by
    unfold Task.finish Task.current
    rw [hm]
    rfl
  unfold handleToken
  rw [hk]
  simp only [endDefinition]
  rw [Task.finish_bind, Task.finish_interp, Outcome.bind_ok]
  conv_lhs => rw [hc, hd]
  simp only [hmemo]
  rw [if_neg Bool.false_ne_true, Task.finish_bind, hcurrent]
  rfl

theorem Interp.Idle.close (hi : i.Idle) :
    { i with compiling := false, memoDefinition := false, definition := none } = i := by
  have hcompiling := hi.compiling
  have hmemo := hi.memo
  have hdefinition := hi.definition
  cases i
  simp_all

/-- Reading a definition where none is open adds its word to the current module. -/
theorem finish_readTokens_definition {opener closer : Token} {inner : List Token} {m : Nat}
    (hopener : opener.kind = .startDef) (hcloser : closer.kind = .endDef) (hi : i.Idle)
    (hm : i.current? = some m) (hinner : ∀ t ∈ inner, t.Compiles i s) :
    (Task.readTokens e (opener :: (inner ++ [closer]))).finish i s =
      .ended (.ok ()) (i.moved i.inputs i.call (some closer.location))
        (s.addWord m (.definition { name := opener.text, location := some opener.location }
          (compiled i s inner))) := by
  let opened : Interp :=
    { i with
      definition := some { name := opener.text, location := opener.location }
      compiling := true
      memoDefinition := false
      previous := some opener.location }
  have hnames : SameNames i s opened s := ⟨rfl, rfl, rfl⟩
  obtain ⟨previous, hread⟩ := finish_readTokens_compiling (e := e) (i := opened) rfl rfl
    (hnames.compiles hinner)
  rw [hnames.compiled_eq, List.nil_append] at hread
  rw [finish_readTokens_cons, finish_readToken, finish_handleToken_startDef hopener hi.compiling,
    Outcome.bind_ok, Outcome.bind_ok, finish_readTokens_append]
  refine (congrArg (Outcome.bind · _) hread).trans ?_
  let last : Interp :=
    { opened with
      definition := some ⟨opener.text, opener.location, compiled i s inner⟩
      previous }
  have hend := finish_handleToken_endDef (e := e) (i := last) (s := s) hcloser rfl rfl rfl hm
  rw [Outcome.bind_ok, finish_readTokens_cons, finish_readToken]
  refine (congrArg (fun x => ((Outcome.bind x _).bind _)) hend).trans ?_
  have hclose := congrArg (fun i : Interp => i.moved i.inputs i.call (some closer.location)) hi.close
  exact congrArg (Outcome.ended (.ok ()) · _) hclose

/-- The run of a definition adds its word to the current module. -/
theorem finish_runSource_definition {source name : String} {body : List Token} {m : Nat}
    (hsource : Defines source name body) (hin : i.inputs = []) (hpending : i.pending = [])
    (hi : i.Idle) (hr : i.recovery = none) (hmarks : i.marks = []) (hm : i.current? = some m)
    (hbody : ∀ t ∈ body, t.Compiles i s) :
    ∃ l previous inner, inner.map Token.pair = body.map Token.pair ∧
      (runSource e source .origin).finish i s =
        .ended (.ok ()) (i.moved i.inputs i.call previous)
          (s.addWord m (.definition { name, location := some l } (compiled i s inner))) := by
  obtain ⟨opener, inner, closer, htokens, hopener, hinner, hcloser⟩ := hsource
  obtain ⟨hkind, rfl⟩ := Prod.mk.inj hopener
  obtain ⟨stop, hrun⟩ := finish_ownRun_tokens (e := e) htokens
  let first := i.beginRun (Scanner.start source .origin).input
  have hnames : SameNames i s first s := ⟨rfl, rfl, rfl⟩
  have hread := finish_readTokens_definition (e := e) (i := first) hkind hcloser hi hm
    (hnames.compiles (Token.compiles_of_pairs hinner hbody))
  rw [hnames.compiled_eq] at hread
  refine ⟨opener.location, some stop, inner, hinner, ?_⟩
  rw [finish_runSource_outermost hin, finish_initializePending_nil hpending, Outcome.bind_ok,
    hrun i s hr fun j u hj => ?_, hread, Outcome.attempt_ok, Outcome.bind_ok, finishReading]
  · exact Task.finish_finishRun_closed fun _ => hmarks
  · rw [hread] at hj
    cases hj
    exact hi.compiling

end Compiling

end Wordstack
