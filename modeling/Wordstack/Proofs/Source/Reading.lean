import Wordstack.Proofs.Source.Grammar
import Wordstack.Source.Scanner

/-!
# Reading a text token by token

- **Gaps and breaks** (`lexed_gap`, `lexed_append`): neither a gap before a lexeme nor one after all
  that it was read from makes a difference to it.
- **A whole text** (`Reads`): the kinds and texts of its tokens in order. A text has one reading at
  most (`Reads.unique`), and texts with a line break between them are read one after the other
  (`Reads.append`).
- **Tokens** (`tokenize_iff_reads`): a text is tokenized if and only if it can be read, and its
  tokens are those of its reading.
- **Spellings** (`Spells`, `Spelled`): the characters that stand for a token of a kind and a text, one
  rule a kind; gaps and spellings in turn, with a gap at either end.
- **Tokens and characters** (`tokens_spell_input`): a text that can be tokenized is the spellings of
  its tokens in order, with gaps between them.
-/

namespace Wordstack

/-! ## Gaps and breaks -/

theorem lexed_gap {c : Char} (hc : isGap c = true) (cs : List Char) :
    lexed (c :: cs) = lexed cs := by
  refine Option.ext fun ⟨k, text, rest⟩ => ?_
  rw [lexed_iff, lexed_iff, List.dropWhile_cons_of_pos hc]

theorem Stops.append_gap {p : Char → Bool} {cs more : List Char} {c : Char} (h : Stops p cs)
    (hp : ∀ c, isGap c = true → p c = false) (hc : isGap c = true) : Stops p (cs ++ c :: more) := by
  cases cs with
  | nil => simpa [Stops] using hp c hc
  | cons d cs => simpa [Stops] using h

theorem afterGap_append_gap {cs more : List Char} {c : Char} (hc : isGap c = true) :
    afterGap (cs ++ c :: more) = afterGap cs ++ c :: more ∨
      afterGap cs = [] ∧ afterGap (cs ++ c :: more) = more := by
  cases cs with
  | nil => right; simp [afterGap, hc]
  | cons d cs => left; simp only [List.cons_append, afterGap]; split <;> rfl

/-- A gap character after all that a lexeme was read from makes no difference to it. It may be taken
with the lexeme. A comment goes on up to a line break. -/
theorem Lexes.append {cs text rest : List Char} {k : TokenKind} {c : Char} (more : List Char)
    (h : Lexes cs k text rest) (hk : k ≠ .eos) (hc : isGap c = true)
    (hcomment : k = .comment → rest = [] → c = '\n') :
    ∃ rest', Lexes (cs ++ c :: more) k text rest' ∧
      (rest' = rest ++ c :: more ∨ rest = [] ∧ rest' = more) := by
  have bare : ∀ c, isGap c = true → isBare c = false := by simp +contextual [isBare]
  have block : ∀ c, isGap c = true → isBlockName c = false := by simp +contextual [isBlockName]
  have gap : ∀ c, isGap c = true → (!isGap c) = false := by simp
  have quote : ∀ q, isQuote q = true → c ≠ q := by
    rintro q hq rfl
    obtain rfl | rfl | rfl := isQuote_iff.mp hq <;> exact absurd hc (by decide)
  have head : ∀ q (rest : List Char), isQuote q = true → rest.head? ≠ some q →
      (rest ++ c :: more).head? ≠ some q := by
    intro q rest hq hr
    cases rest with
    | nil => simpa using quote q hq
    | cons d rest => simpa using hr
  cases h with
  | eos => exact absurd rfl hk
  | @comment text rest ht hr =>
    refine ⟨rest ++ c :: more, ?_, .inl rfl⟩
    rw [List.cons_append, List.append_assoc]
    refine .comment ht ?_
    cases rest with
    | nil => simp [Stops, hcomment rfl rfl]
    | cons d rest => simpa [Stops] using hr
  | startDef hg hn h hr =>
    refine ⟨_, ?_, .inl rfl⟩
    rw [List.cons_append, List.append_assoc]
    exact .startDef hg hn h (hr.append_gap gap hc)
  | startMemo hg hn h hr =>
    refine ⟨_, ?_, .inl rfl⟩
    rw [List.cons_append, List.cons_append, List.append_assoc]
    exact .startMemo hg hn h (hr.append_gap gap hc)
  | endDef => exact ⟨_, .endDef, .inl rfl⟩
  | startArray => exact ⟨_, .startArray, .inl rfl⟩
  | endArray => exact ⟨_, .endArray, .inl rfl⟩
  | endModule => exact ⟨_, .endModule, .inl rfl⟩
  | startModule h ht =>
    refine ⟨_, ?_, afterGap_append_gap hc⟩
    rw [List.cons_append, List.append_assoc]
    exact .startModule h (ht.append_gap block hc)
  | @quoted q text rest hq h hr =>
    refine ⟨rest ++ c :: more, ?_, .inl rfl⟩
    have e : q :: (text ++ q :: rest) ++ c :: more = q :: (text ++ q :: (rest ++ c :: more)) := by
      simp
    rw [e]
    exact .quoted hq h fun ht => head q rest hq (hr ht)
  | @tripled q text rest hq h hr =>
    refine ⟨rest ++ c :: more, ?_, .inl rfl⟩
    have e : q :: q :: q :: (text ++ q :: q :: q :: rest) ++ c :: more =
        q :: q :: q :: (text ++ q :: q :: q :: (rest ++ c :: more)) := by simp
    rw [e]
    exact .tripled hq h (head q rest hq hr)
  | dot ht => exact ⟨_, .dot (ht.append_gap bare hc), afterGap_append_gap hc⟩
  | dotSymbol hn h ht =>
    refine ⟨_, ?_, afterGap_append_gap hc⟩
    rw [List.cons_append, List.append_assoc]
    exact .dotSymbol hn h (ht.append_gap bare hc)
  | word h hq hd hs hm ht =>
    refine ⟨_, ?_, afterGap_append_gap hc⟩
    rw [List.append_assoc]
    exact .word h hq hd hs hm (ht.append_gap bare hc)

theorem lexed_append {cs text rest : List Char} {k : TokenKind} {c : Char} (more : List Char)
    (h : lexed cs = some (k, text, rest)) (hk : k ≠ .eos) (hc : isGap c = true)
    (hcomment : k = .comment → rest = [] → c = '\n') :
    ∃ rest', lexed (cs ++ c :: more) = some (k, text, rest') ∧
      (rest' = rest ++ c :: more ∨ rest = [] ∧ rest' = more) := by
  have hl := lexed_iff.mp h
  obtain ⟨rest', hrest', hr⟩ := hl.append more hk hc hcomment
  refine ⟨rest', lexed_iff.mpr ?_, hr⟩
  obtain ⟨gap, body, rfl, hgap, hbody⟩ := exists_span isGap cs
  rw [dropWhile_append_of_stops hgap hbody] at hl hrest'
  have hbody' : Stops isGap (body ++ c :: more) := by
    cases hl with
    | eos => exact absurd rfl hk
    | _ => simpa [Stops] using hbody
  rwa [List.append_assoc, dropWhile_append_of_stops hgap hbody']

/-- Every lexeme but the end takes a character. -/
theorem rest_lt_of_lexed {cs text rest : List Char} {k : TokenKind}
    (h : lexed cs = some (k, text, rest)) (hk : k ≠ .eos) : rest.length < cs.length := by
  have hgap : (cs.dropWhile isGap).length ≤ cs.length := List.length_dropWhile_le ..
  have hafter : ∀ cs, (afterGap cs).length ≤ cs.length := by
    intro cs
    cases cs with
    | nil => simp [afterGap]
    | cons c cs => simp only [afterGap]; split <;> simp
  refine Nat.lt_of_lt_of_le ?_ hgap
  have hl := lexed_iff.mp h
  generalize cs.dropWhile isGap = body at hl
  cases hl with
  | eos => exact absurd rfl hk
  | @startModule name tail | @dot tail | @dotSymbol text tail | @word c text tail =>
    have := hafter tail
    simp only [List.length_cons, List.length_append]
    omega
  | _ => simp only [List.length_cons, List.length_append]; omega

/-! ## Whole texts -/

/-- The text is read as tokens of these kinds and texts, up to its end. -/
inductive Reads : List Char → List (TokenKind × List Char) → Prop
  | stop {cs text rest} (h : lexed cs = some (.eos, text, rest)) : Reads cs []
  | next {cs k text rest ts} (h : lexed cs = some (k, text, rest)) (hk : k ≠ .eos)
    (tail : Reads rest ts) : Reads cs ((k, text) :: ts)

namespace Reads

theorem unique {cs : List Char} {ts us : List (TokenKind × List Char)} (ht : Reads cs ts)
    (hu : Reads cs us) : ts = us := by
  induction ht generalizing us with
  | stop h =>
    cases hu with
    | stop => rfl
    | next h' hk => simp_all
  | next h hk _ ih =>
    cases hu with
    | stop h' => simp_all
    | next h' hk' tail =>
      obtain ⟨rfl, rfl, rfl⟩ := by simpa using h.symm.trans h'
      rw [ih tail]

theorem nil : Reads [] [] := .stop (lexed_iff.mpr .eos)

/-- A gap makes no difference to what is read after it. -/
theorem gap_iff {c : Char} (hc : isGap c = true) {cs : List Char}
    {ts : List (TokenKind × List Char)} : Reads (c :: cs) ts ↔ Reads cs ts := by
  constructor
  · intro h
    cases h with
    | stop h => exact .stop (by rwa [lexed_gap hc] at h)
    | next h hk tail => exact .next (by rwa [lexed_gap hc] at h) hk tail
  · intro h
    cases h with
    | stop h => exact .stop (by rwa [lexed_gap hc])
    | next h hk tail => exact .next (by rwa [lexed_gap hc]) hk tail

/-- Texts with a line break between them are read one after the other. -/
theorem append {cs more : List Char} {ts us : List (TokenKind × List Char)} (h : Reads cs ts)
    (hm : Reads more us) : Reads (cs ++ '\n' :: more) (ts ++ us) := by
  have hbreak : Reads ('\n' :: more) us := (gap_iff (by decide)).mpr hm
  induction h with
  | @stop cs _ _ h =>
    obtain ⟨gap, body, rfl, hgap, hbody⟩ := exists_span isGap cs
    have hend := lexed_iff.mp h
    rw [dropWhile_append_of_stops hgap hbody] at hend
    cases hend
    rw [List.append_nil]
    clear h hbody
    induction gap with
    | nil => exact hbreak
    | cons c gap ih =>
      have hc := List.forall_mem_cons.mp hgap
      exact (gap_iff hc.1).mpr (ih hc.2)
  | @next cs k text rest ts h hk tail ih =>
    obtain ⟨rest', hrest', rfl | ⟨rfl, rfl⟩⟩ := lexed_append more h hk (by decide) fun _ _ => rfl
    · exact .next hrest' hk ih
    · obtain rfl := tail.unique nil
      exact .next hrest' hk hm

end Reads

/-! ## Tokens -/

/-- The kind and the text of a token. -/
def Token.lexeme (t : Token) : TokenKind × List Char := (t.kind, t.text.toList)

theorem Scanner.next_of_lexed {s : Scanner} {k : TokenKind} {text rest : List Char}
    (h : lexed s.rest = some (k, text, rest)) :
    ∃ t s', s.next = (.ok t, s') ∧ t.lexeme = (k, text) ∧ s'.rest = rest := by
  unfold lexed readOf at h
  unfold next
  cases hl : lex s.rest with
  | error f => simp [hl] at h
  | ok r =>
    obtain ⟨l, rest'⟩ := r
    simp only [hl, Option.some.injEq, Prod.mk.injEq] at h
    obtain ⟨rfl, rfl, rfl⟩ := h
    exact ⟨_, _, rfl, by simp [Token.lexeme], rfl⟩

theorem Scanner.next_of_not_lexed {s : Scanner} (h : lexed s.rest = none) :
    ∃ f s', s.next = (.error f, s') := by
  unfold lexed readOf at h
  unfold next
  cases hl : lex s.rest with
  | ok r => simp [hl] at h
  | error f => cases f <;> exact ⟨_, _, rfl⟩

/-- Every token but the end of the source takes a character. -/
theorem Scanner.rest_lt {sc sc' : Scanner} {t : Token} (h : sc.next = (.ok t, sc'))
    (hk : t.kind ≠ .eos) : sc'.rest.length < sc.rest.length := by
  cases hl : lexed sc.rest with
  | none =>
    obtain ⟨f, sc₁, hn⟩ := next_of_not_lexed hl
    rw [h] at hn
    cases hn
  | some r =>
    obtain ⟨k, text, rest⟩ := r
    obtain ⟨t₁, sc₁, hn, ht, rfl⟩ := next_of_lexed hl
    rw [h] at hn
    cases hn
    exact rest_lt_of_lexed hl fun he => hk ((congrArg Prod.fst ht).trans he)

/-- With a bound above the number of characters all tokens are read. -/
theorem Scanner.tokensWithin_iff_reads {bound : Nat} {s : Scanner}
    {ts : List (TokenKind × List Char)} (hb : s.rest.length < bound) :
    ((∃ t, (s.tokensWithin bound).stop = .ok t) ∧
      (s.tokensWithin bound).tokens.map Token.lexeme = ts) ↔ Reads s.rest ts := by
  induction bound generalizing s ts with
  | zero => omega
  | succ bound ih =>
    cases hl : lexed s.rest with
    | none =>
      obtain ⟨f, s', hn⟩ := next_of_not_lexed hl
      simp only [tokensWithin, hn, reduceCtorEq, exists_false, false_and, false_iff]
      intro h
      cases h <;> simp_all
    | some r =>
      obtain ⟨k, text, rest⟩ := r
      obtain ⟨t, s', hn, ht, rfl⟩ := next_of_lexed hl
      have hkind : t.kind = k := congrArg Prod.fst ht
      simp only [tokensWithin, hn, hkind]
      by_cases hk : k = .eos
      · subst hk
        simp only [if_true, Except.ok.injEq, exists_eq', List.map_nil, true_and]
        refine ⟨fun h => h ▸ .stop hl, fun h => Reads.unique (.stop hl) h⟩
      · have hlt := rest_lt_of_lexed hl hk
        have ih' : ∀ ts, _ ↔ Reads s'.rest ts := fun ts => ih (by omega)
        simp only [if_neg hk, List.map_cons, ht]
        constructor
        · rintro ⟨hstop, rfl⟩
          exact .next hl hk ((ih' _).mp ⟨hstop, rfl⟩)
        · intro h
          cases h with
          | stop h => simp_all
          | next h hk' tail =>
            obtain ⟨rfl, rfl, rfl⟩ := by simpa using hl.symm.trans h
            obtain ⟨hstop, htail⟩ := (ih' _).mpr tail
            exact ⟨hstop, by rw [htail]⟩

theorem eq_ok_of_toOption_eq_some {ε α : Type} {x : Except ε α} {a : α}
    (h : x.toOption = some a) : x = .ok a := by
  cases x with
  | ok b => exact congrArg Except.ok (Option.some.inj h)
  | error e => cases h

/-- A text is tokenized if and only if it can be read, and its tokens are those of its reading. -/
theorem tokenize_iff_reads {text : String} {origin : Location}
    {ts : List (TokenKind × List Char)} :
    (∃ tokens, tokenize text origin = .ok tokens ∧ tokens.map Token.lexeme = ts) ↔
      Reads (unescape text.toList) ts := by
  have h := @Scanner.tokensWithin_iff_reads _ (Scanner.start text origin) ts (Nat.lt_succ_self _)
  refine Iff.trans ?_ h
  unfold tokenize Scanner.tokens
  generalize (Scanner.start text origin).tokensWithin _ = r
  cases hr : r.stop <;> simp [hr]

/-! ## Spellings -/

/-- The spelling of a token of a kind and a text. -/
inductive Spells : TokenKind → List Char → List Char → Prop
  | comment {text} (h : '\n' ∉ text) : Spells .comment text ('#' :: text)
  | startDef {blanks name} (hb : ∀ c ∈ blanks, isGap c = true) (hn : name ≠ [])
    (h : ∀ c ∈ name, isDefinitionName c = true) : Spells .startDef name (':' :: (blanks ++ name))
  | startMemo {blanks name} (hb : ∀ c ∈ blanks, isGap c = true) (hn : name ≠ [])
    (h : ∀ c ∈ name, isDefinitionName c = true) :
    Spells .startMemo name ('@' :: ':' :: (blanks ++ name))
  | endDef : Spells .endDef [';'] [';']
  | startArray : Spells .startArray ['['] ['[']
  | endArray : Spells .endArray [']'] [']']
  | endModule : Spells .endModule ['\x7d'] ['\x7d']
  | startModule {name} (h : ∀ c ∈ name, isBlockName c = true) :
    Spells .startModule name ('\x7b' :: name)
  | quoted {q text} (hq : isQuote q = true) (h : q ∉ text) : Spells .str text (q :: (text ++ [q]))
  | tripled {q text} (hq : isQuote q = true) (h : EndsTripled q text) :
    Spells .str text (q :: q :: q :: (text ++ [q, q, q]))
  | dotSymbol {text} (hn : text ≠ []) (h : ∀ c ∈ text, isBare c = true) :
    Spells .dotSymbol text ('.' :: text)
  | word {text} (hn : text ≠ []) (h : ∀ c ∈ text, isBare c = true) : Spells .word text text

/-- Gaps and the spellings of tokens of these kinds and texts in turn. -/
inductive Spelled : List (TokenKind × List Char) → List Char → Prop
  | nil {gap} (h : ∀ c ∈ gap, isGap c = true) : Spelled [] gap
  | cons {gap spelling more k text ts} (hg : ∀ c ∈ gap, isGap c = true)
    (hs : Spells k text spelling) (tail : Spelled ts more) :
    Spelled ((k, text) :: ts) (gap ++ (spelling ++ more))

theorem Spelled.gap_append {gap cs : List Char} {ts : List (TokenKind × List Char)}
    (h : Spelled ts cs) (hg : ∀ c ∈ gap, isGap c = true) : Spelled ts (gap ++ cs) := by
  cases h with
  | nil h => exact .nil (List.forall_mem_append.mpr ⟨hg, h⟩)
  | cons h hs tail =>
    rw [← List.append_assoc]
    exact .cons (List.forall_mem_append.mpr ⟨hg, h⟩) hs tail

theorem exists_eq_append_afterGap (cs : List Char) :
    ∃ gap, (∀ c ∈ gap, isGap c = true) ∧ cs = gap ++ afterGap cs := by
  cases cs with
  | nil => exact ⟨[], by simp, rfl⟩
  | cons c cs =>
    rw [afterGap]
    split
    case isTrue hc => exact ⟨[c], by simpa using hc, rfl⟩
    case isFalse => exact ⟨[], by simp, rfl⟩

/-- A lexeme is its spelling, and a gap that may be taken with it. -/
theorem Lexes.spelled {cs text rest : List Char} {k : TokenKind} (h : Lexes cs k text rest)
    (hk : k ≠ .eos) : ∃ spelling gap, cs = spelling ++ (gap ++ rest) ∧ Spells k text spelling ∧
      ∀ c ∈ gap, isGap c = true := by
  have none : ∀ c ∈ ([] : List Char), isGap c = true := List.forall_mem_nil _
  cases h with
  | eos => exact absurd rfl hk
  | comment h => exact ⟨_, [], rfl, .comment h, none⟩
  | startDef hb hn h => exact ⟨_, [], rfl, .startDef hb hn h, none⟩
  | startMemo hb hn h => exact ⟨_, [], rfl, .startMemo hb hn h, none⟩
  | endDef => exact ⟨_, [], rfl, .endDef, none⟩
  | startArray => exact ⟨_, [], rfl, .startArray, none⟩
  | endArray => exact ⟨_, [], rfl, .endArray, none⟩
  | endModule => exact ⟨_, [], rfl, .endModule, none⟩
  | quoted hq h => exact ⟨_, [], by simp, .quoted hq h, none⟩
  | tripled hq h => exact ⟨_, [], by simp, .tripled hq h, none⟩
  | @startModule name tail h =>
    obtain ⟨gap, hgap, e⟩ := exists_eq_append_afterGap tail
    exact ⟨_, gap, by rw [← e]; rfl, .startModule h, hgap⟩
  | @dot tail =>
    obtain ⟨gap, hgap, e⟩ := exists_eq_append_afterGap tail
    exact ⟨_, gap, by rw [← e]; rfl, .word (by simp) (List.forall_mem_singleton.mpr rfl), hgap⟩
  | @dotSymbol text tail hn h =>
    obtain ⟨gap, hgap, e⟩ := exists_eq_append_afterGap tail
    exact ⟨_, gap, by rw [← e]; rfl, .dotSymbol hn h, hgap⟩
  | @word c text tail h =>
    obtain ⟨gap, hgap, e⟩ := exists_eq_append_afterGap tail
    exact ⟨_, gap, by rw [← e], .word (by simp) h, hgap⟩

/-- What is read of a text spells it. -/
theorem Reads.spelled {cs : List Char} {ts : List (TokenKind × List Char)} (h : Reads cs ts) :
    Spelled ts cs := by
  induction h with
  | @stop cs text rest h =>
    obtain ⟨gap, body, rfl, hgap, hbody⟩ := exists_span isGap cs
    have hl := lexed_iff.mp h
    rw [dropWhile_append_of_stops hgap hbody] at hl
    cases hl
    rw [List.append_nil]
    exact .nil hgap
  | @next cs k text rest ts h hk _ ih =>
    obtain ⟨gap, body, rfl, hgap, hbody⟩ := exists_span isGap cs
    have hl := lexed_iff.mp h
    rw [dropWhile_append_of_stops hgap hbody] at hl
    obtain ⟨spelling, closer, rfl, hs, hcloser⟩ := hl.spelled hk
    exact .cons hgap hs (ih.gap_append hcloser)

/-- A text that can be tokenized is, once its entities are replaced, the spellings of its tokens in
order with gaps before, between and after them: nothing else is in it and nothing is lost. -/
theorem tokens_spell_input {text : String} {origin : Location} {ts : List Token}
    (h : tokenize text origin = .ok ts) :
    Spelled (ts.map Token.lexeme) (Scanner.start text origin).input.toList := by
  have hreads := tokenize_iff_reads.mp ⟨ts, h, rfl⟩
  rw [show (Scanner.start text origin).input.toList = unescape text.toList from
    String.toList_ofList]
  exact hreads.spelled

/-- Names behind gaps, quotes in a word, four quotes at the end of a string, brackets in the name of
a block and a comment at the end. -/
theorem tokens_spell_input_mixed : ∃ ts,
    tokenize "\t: F (a'\"\"\"b\" \"\"\"c\"\"\"\"),\x7bm[] @:\nG .x;#c " .origin = .ok ts ∧
      ts.map Token.lexeme = [(.startDef, ['F']), (.word, "a'\"\"\"b\"".toList),
        (.str, ['c', '\x22']), (.startModule, "m[]".toList), (.startMemo, ['G']),
        (.dotSymbol, ['x']), (.endDef, [';']), (.comment, "c ".toList)] ∧
      Spelled (ts.map Token.lexeme) (Scanner.start
        "\t: F (a'\"\"\"b\" \"\"\"c\"\"\"\"),\x7bm[] @:\nG .x;#c " .origin).input.toList := by
  have hsource : (tokenize "\t: F (a'\"\"\"b\" \"\"\"c\"\"\"\"),\x7bm[] @:\nG .x;#c " .origin
      ).toOption.map (·.map Token.lexeme) = some [(.startDef, ['F']),
        (.word, "a'\"\"\"b\"".toList), (.str, ['c', '\x22']), (.startModule, "m[]".toList),
        (.startMemo, ['G']), (.dotSymbol, ['x']), (.endDef, [';']), (.comment, "c ".toList)] := by
    decide +kernel
  obtain ⟨ts, hts, hlexemes⟩ := Option.map_eq_some_iff.mp hsource
  replace hts := eq_ok_of_toOption_eq_some hts
  exact ⟨ts, hts, hlexemes, tokens_spell_input hts⟩

end Wordstack
