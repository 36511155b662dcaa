import Wordstack.Proofs.Text.Spans
import Wordstack.Source.Token

/-!
# The grammar of lexemes

- **Strings** (`EndsTripled`): the texts that three quotes on each side hold.
- **Lexemes** (`Lexes`): how a text begins, after the gap before its first lexeme; one rule a kind.
- **The reader** (`lexed_iff`): it follows the grammar, and reads all that the grammar allows.
-/

namespace Wordstack

/-! ## The rules -/

/-- What is left of a text when a gap character at its start is taken. -/
def afterGap : List Char → List Char
  | [] => []
  | c :: cs => if isGap c then cs else c :: cs

/-- Characters of words and symbols. -/
def isBare (c : Char) : Bool := !isGap c && !isTerminator c

/-- Characters of names of module blocks. -/
def isBlockName (c : Char) : Bool := !isGap c && c != '}'

/-- Characters of names of definitions. -/
def isDefinitionName (c : Char) : Bool := !isGap c && !isQuote c && !isNameBracket c

/-- Three quotes in the text are followed by a fourth one, or they end it. -/
def EndsTripled (q : Char) (text : List Char) : Prop :=
  ∀ before after, text = before ++ q :: q :: q :: after → after = [] ∨ after.head? = some q

/-- `Lexes cs k text rest`: after a gap, `cs` begins with a lexeme of a kind and with a text, and
`rest` is left. -/
inductive Lexes : List Char → TokenKind → List Char → List Char → Prop
  | eos : Lexes [] .eos [] []
  | comment {text rest} (h : '\n' ∉ text) (hr : Stops (· != '\n') rest) :
    Lexes ('#' :: (text ++ rest)) .comment text rest
  | startDef {gap name rest} (hg : ∀ c ∈ gap, isGap c = true) (hn : name ≠ [])
    (h : ∀ c ∈ name, isDefinitionName c = true) (hr : Stops (!isGap ·) rest) :
    Lexes (':' :: (gap ++ name ++ rest)) .startDef name rest
  | startMemo {gap name rest} (hg : ∀ c ∈ gap, isGap c = true) (hn : name ≠ [])
    (h : ∀ c ∈ name, isDefinitionName c = true) (hr : Stops (!isGap ·) rest) :
    Lexes ('@' :: ':' :: (gap ++ name ++ rest)) .startMemo name rest
  | endDef {rest} : Lexes (';' :: rest) .endDef [';'] rest
  | startArray {rest} : Lexes ('[' :: rest) .startArray ['['] rest
  | endArray {rest} : Lexes (']' :: rest) .endArray [']'] rest
  | endModule {rest} : Lexes ('\x7d' :: rest) .endModule ['\x7d'] rest
  | startModule {name tail} (h : ∀ c ∈ name, isBlockName c = true) (ht : Stops isBlockName tail) :
    Lexes ('\x7b' :: (name ++ tail)) .startModule name (afterGap tail)
  | quoted {q text rest} (hq : isQuote q = true) (h : q ∉ text)
    (hr : text = [] → rest.head? ≠ some q) : Lexes (q :: (text ++ q :: rest)) .str text rest
  | tripled {q text rest} (hq : isQuote q = true) (h : EndsTripled q text)
    (hr : rest.head? ≠ some q) :
    Lexes (q :: q :: q :: (text ++ q :: q :: q :: rest)) .str text rest
  | dot {tail} (ht : Stops isBare tail) : Lexes ('.' :: tail) .word ['.'] (afterGap tail)
  | dotSymbol {text tail} (hn : text ≠ []) (h : ∀ c ∈ text, isBare c = true)
    (ht : Stops isBare tail) : Lexes ('.' :: (text ++ tail)) .dotSymbol text (afterGap tail)
  | word {c text tail} (h : ∀ d ∈ c :: text, isBare d = true) (hq : isQuote c = false)
    (hd : c ≠ '.') (hs : c ≠ ':') (hm : c = '@' → text.head? ≠ some ':')
    (ht : Stops isBare tail) : Lexes (c :: text ++ tail) .word (c :: text) (afterGap tail)

/-! ## The reader -/

/-- The kind and the text of what was read and what is left, if it could be read. -/
def readOf : Except LexFault (Lexeme × List Char) → Option (TokenKind × List Char × List Char)
  | .ok (l, rest) => some (l.kind, l.text, rest)
  | .error _ => none

/-- The kind and the text of the first lexeme, and what is left after it. -/
def lexed (cs : List Char) : Option (TokenKind × List Char × List Char) := readOf (lex cs)

theorem lexBare_eq (cs : List Char) :
    (lexBare cs).1 = cs.takeWhile isBare ∧
      (lexBare cs).2.2 = afterGap (cs.dropWhile isBare) := by
  unfold lexBare isBare
  split
  case h_1 c rest h =>
    rw [h]
    simp only [afterGap]
    split <;> simp
  case h_2 h => simp [h, afterGap]

theorem lexModuleName_eq (cs : List Char) :
    (lexModuleName cs).1 = cs.takeWhile isBlockName ∧
      (lexModuleName cs).2.2 = afterGap (cs.dropWhile isBlockName) := by
  unfold lexModuleName isBlockName
  split
  case h_1 c rest h =>
    rw [h]
    simp only [afterGap]
    split <;> simp
  case h_2 h => simp [h, afterGap]

theorem lexQuoted_iff {q : Char} {cs text rest : List Char} :
    lexQuoted q cs = some (text, rest) ↔ cs = text ++ q :: rest ∧ q ∉ text := by
  unfold lexQuoted
  constructor
  · intro h
    obtain ⟨t, more, rfl, ht, hm⟩ := exists_span (· != q) cs
    rw [takeWhile_append_of_stops ht hm, dropWhile_append_of_stops ht hm] at h
    cases more with
    | nil => simp at h
    | cons m more =>
      obtain rfl : m = q := by simpa using hm m (by simp)
      simp only [Option.some.injEq, Prod.mk.injEq] at h
      obtain ⟨rfl, rfl⟩ := h
      exact ⟨rfl, fun hq => by simpa using ht m hq⟩
  · rintro ⟨rfl, hq⟩
    have ht : ∀ c ∈ text, (c != q) = true := fun c hc =>
      bne_iff_ne.mpr fun e => hq (e ▸ hc)
    have hm : Stops (· != q) (q :: rest) := by simp [Stops]
    rw [takeWhile_append_of_stops ht hm, dropWhile_append_of_stops ht hm]

theorem EndsTripled.tail {q a : Char} {text : List Char} (h : EndsTripled q (a :: text)) :
    EndsTripled q text :=
  fun before after e => h (a :: before) after (by simp [e])

/-- A string with three quotes on each side ends here. -/
def EndsHere (q : Char) (cs : List Char) : Prop :=
  ∃ rest, cs = q :: q :: q :: rest ∧ rest.head? ≠ some q

theorem lexTripleQuoted_ends {q : Char} {rest : List Char} (h : rest.head? ≠ some q) :
    lexTripleQuoted q (q :: q :: q :: rest) = some ([], rest) := by
  simp [lexTripleQuoted, h]

theorem lexTripleQuoted_goes_on {q a : Char} {cs : List Char} (h : ¬ EndsHere q (a :: cs)) :
    lexTripleQuoted q (a :: cs) = (lexTripleQuoted q cs).map fun r => (a :: r.1, r.2) := by
  rw [lexTripleQuoted.eq_def]
  dsimp only
  split
  case isTrue ha =>
    split
    case h_1 b c rest =>
      split
      case isTrue hc =>
        simp only [beq_iff_eq, Bool.and_eq_true, bne_iff_ne] at ha hc
        exact absurd ⟨rest, by simp [ha, hc], hc.2⟩ h
      case isFalse => rfl
    case h_2 => rfl
  case isFalse => rfl

/-- Before the place where the string ends, its text goes on. -/
theorem endsTripled_cons_iff {q a : Char} {text rest : List Char}
    (h : ¬ EndsHere q (a :: (text ++ q :: q :: q :: rest))) :
    EndsTripled q (a :: text) ↔ EndsTripled q text := by
  refine ⟨EndsTripled.tail, fun ht before after e => ?_⟩
  cases before with
  | cons b before =>
    rw [List.cons_append, List.cons.injEq] at e
    exact ht before after e.2
  | nil =>
    simp only [List.nil_append, List.cons.injEq] at e
    obtain ⟨rfl, rfl⟩ := e
    by_contra hafter
    simp only [not_or] at hafter
    obtain ⟨c, after, rfl⟩ := List.exists_cons_of_ne_nil hafter.1
    exact h ⟨c :: after ++ a :: a :: a :: rest, by simp, by simpa using hafter.2⟩

theorem lexTripleQuoted_iff {q : Char} {cs text rest : List Char} :
    lexTripleQuoted q cs = some (text, rest) ↔
      cs = text ++ q :: q :: q :: rest ∧ EndsTripled q text ∧ rest.head? ≠ some q := by
  induction cs generalizing text with
  | nil => simp [lexTripleQuoted]
  | cons a cs ih =>
    by_cases here : EndsHere q (a :: cs)
    · obtain ⟨rest', e, hrest'⟩ := here
      rw [e, lexTripleQuoted_ends hrest']
      constructor
      · rintro ⟨⟩
        exact ⟨rfl, fun before after e => by simp at e, hrest'⟩
      · rintro ⟨e', ht, -⟩
        -- a longer text would have three quotes at its start that no fourth one follows
        match text with
        | [] => simpa using e'
        | [x] => simp_all
        | [x, y] => simp_all
        | x :: y :: z :: text =>
          simp only [List.cons_append, List.cons.injEq] at e'
          obtain ⟨rfl, rfl, rfl, rfl⟩ := e'
          rcases ht [] text rfl with rfl | h
          · simp at hrest'
          · cases text <;> simp_all
    · rw [lexTripleQuoted_goes_on here, Option.map_eq_some_iff]
      constructor
      · rintro ⟨⟨t, r⟩, hr, e⟩
        simp only [Prod.mk.injEq] at e
        obtain ⟨rfl, rfl⟩ := e
        obtain ⟨rfl, ht, hrest⟩ := ih.mp hr
        exact ⟨rfl, (endsTripled_cons_iff here).mpr ht, hrest⟩
      · rintro ⟨e, ht, hrest⟩
        cases text with
        | nil => exact absurd ⟨rest, e, hrest⟩ here
        | cons x text =>
          rw [List.cons_append, List.cons.injEq] at e
          obtain ⟨rfl, rfl⟩ := e
          exact ⟨(text, rest), ih.mpr ⟨rfl, ht.tail, hrest⟩, rfl⟩

theorem Stops.definitionName {cs : List Char} (h : Stops (!isGap ·) cs) :
    Stops isDefinitionName cs := by
  intro c hc
  have := h c hc
  simp_all [isDefinitionName]

theorem not_isGap_of_isDefinitionName {c : Char} (h : isDefinitionName c = true) :
    isGap c = false := by
  simp_all [isDefinitionName]

/-- What is read of the name of a definition between a gap and what stops the name. -/
theorem readOf_lexDefinition {kind : TokenKind} {noun : String} {lead gap name more : List Char}
    (hgap : ∀ c ∈ gap, isGap c = true) (hbody : Stops isGap (name ++ more))
    (hname : ∀ c ∈ name, isDefinitionName c = true) (hm : Stops isDefinitionName more) :
    readOf (lexDefinition kind noun lead (gap ++ (name ++ more))) =
      if name ++ more ≠ [] ∧ Stops (!isGap ·) more then some (kind, name, more) else none := by
  have ht : (name ++ more).takeWhile (fun c => !isGap c && !isQuote c && !isNameBracket c) = name :=
    takeWhile_append_of_stops hname hm
  have hd : (name ++ more).dropWhile (fun c => !isGap c && !isQuote c && !isNameBracket c) = more :=
    dropWhile_append_of_stops hname hm
  simp only [lexDefinition, takeWhile_append_of_stops hgap hbody,
    dropWhile_append_of_stops hgap hbody, ht, hd]
  cases more with
  | nil => cases name <;> simp [readOf, Stops]
  | cons c more =>
    by_cases hc : isGap c = true
    · simp [readOf, Stops, hc]
    · by_cases hq : isQuote c = true <;> simp [readOf, Stops, hc, hq]

theorem readOf_lexDefinition_iff {kind k : TokenKind} {noun : String}
    {lead cs name rest : List Char} :
    readOf (lexDefinition kind noun lead cs) = some (k, name, rest) ↔
      kind = k ∧ ∃ gap, cs = gap ++ name ++ rest ∧ (∀ c ∈ gap, isGap c = true) ∧ name ≠ [] ∧
        (∀ c ∈ name, isDefinitionName c = true) ∧ Stops (!isGap ·) rest := by
  constructor
  · intro h
    obtain ⟨gap, body, rfl, hgap, hbody⟩ := exists_span isGap cs
    obtain ⟨t, more, rfl, ht, hm⟩ := exists_span isDefinitionName body
    rw [readOf_lexDefinition hgap hbody ht hm] at h
    split at h
    case isFalse => simp at h
    case isTrue hstop =>
      simp only [Option.some.injEq, Prod.mk.injEq] at h
      obtain ⟨rfl, rfl, rfl⟩ := h
      refine ⟨rfl, gap, by simp, hgap, fun e => ?_, ht, hstop.2⟩
      -- without a name the gap would go on
      subst e
      cases more with
      | nil => simp at hstop
      | cons c more =>
        have := hstop.2 c (by simp)
        have := hbody c (by simp)
        simp_all
  · rintro ⟨rfl, gap, rfl, hgap, hn, hname, hr⟩
    obtain ⟨c, name, rfl⟩ := List.exists_cons_of_ne_nil hn
    have hbody : Stops isGap (c :: name ++ rest) := by
      have := not_isGap_of_isDefinitionName (hname c (by simp))
      simpa [Stops] using this
    rw [List.append_assoc, readOf_lexDefinition hgap hbody hname hr.definitionName]
    simp [hr]

/-- One quote on each side, when the text does not begin with two more. -/
theorem lexQuoted_iff_of_ne {cs text rest : List Char} {q : Char}
    (hcs : ∀ body, cs ≠ q :: q :: body) :
    lexQuoted q cs = some (text, rest) ↔
      (cs = text ++ q :: rest ∧ q ∉ text ∧ (text = [] → rest.head? ≠ some q)) ∨
        cs = q :: q :: (text ++ q :: q :: q :: rest) ∧ EndsTripled q text ∧
          rest.head? ≠ some q := by
  have hends : text = [] → cs = text ++ q :: rest → rest.head? ≠ some q := by
    rintro rfl rfl h
    obtain ⟨b, body, rfl⟩ : ∃ b body, rest = b :: body := by cases rest <;> simp_all
    simp only [List.head?_cons, Option.some.injEq] at h
    exact hcs body (by simp [h])
  rw [lexQuoted_iff]
  constructor
  · rintro ⟨h, hq⟩
    exact .inl ⟨h, hq, fun e => hends e h⟩
  · rintro (⟨h, hq, -⟩ | ⟨h, -, -⟩)
    · exact ⟨h, hq⟩
    · exact absurd h (hcs _)

theorem readOf_lexString_iff {gap rest₀ text rest : List Char} {q : Char} {k : TokenKind} :
    readOf (lexString gap q rest₀) = some (k, text, rest) ↔
      k = .str ∧
        ((rest₀ = text ++ q :: rest ∧ q ∉ text ∧ (text = [] → rest.head? ≠ some q)) ∨
          rest₀ = q :: q :: (text ++ q :: q :: q :: rest) ∧ EndsTripled q text ∧
            rest.head? ≠ some q) := by
  unfold lexString
  split
  case h_1 b c body =>
    split
    case isTrue hbc =>
      simp only [Bool.and_eq_true, beq_iff_eq] at hbc
      obtain ⟨rfl, rfl⟩ := hbc
      refine Iff.trans (b := k = .str ∧ lexTripleQuoted c body = some (text, rest)) ?_ ?_
      · cases lexTripleQuoted c body <;> simp [readOf, Prod.ext_iff, eq_comm]
      rw [lexTripleQuoted_iff]
      constructor
      · rintro ⟨rfl, rfl, ht, hr⟩
        exact ⟨rfl, .inr ⟨rfl, ht, hr⟩⟩
      · rintro ⟨rfl, ⟨h, hq, hr⟩ | ⟨h, ht, hr⟩⟩
        · cases text with
          | nil =>
            obtain rfl : c :: body = rest := by simpa using h
            simp at hr
          | cons a text => simp_all
        · simp only [List.cons.injEq, true_and] at h
          exact ⟨rfl, h, ht, hr⟩
    case isFalse hbc =>
      have hne : ∀ body', b :: c :: body ≠ q :: q :: body' := by
        intro body' h
        simp only [List.cons.injEq] at h
        exact hbc (by simp [h.1, h.2.1])
      rw [← lexQuoted_iff_of_ne hne]
      cases lexQuoted q (b :: c :: body) <;> simp [readOf, Prod.ext_iff, eq_comm]
  case h_2 h =>
    rw [← lexQuoted_iff_of_ne fun body e => h _ _ _ e]
    cases lexQuoted q rest₀ <;> simp [readOf, Prod.ext_iff, eq_comm]

theorem comment_iff {ds text rest : List Char} :
    ds.takeWhile (· != '\n') = text ∧ ds.dropWhile (· != '\n') = rest ↔
      ds = text ++ rest ∧ '\n' ∉ text ∧ Stops (· != '\n') rest := by
  constructor
  · rintro ⟨rfl, rfl⟩
    obtain ⟨t, more, rfl, ht, hm⟩ := exists_span (· != '\n') ds
    rw [takeWhile_append_of_stops ht hm, dropWhile_append_of_stops ht hm]
    exact ⟨rfl, fun h => by simpa using ht _ h, hm⟩
  · rintro ⟨rfl, ht, hm⟩
    have ht' : ∀ c ∈ text, (c != '\n') = true := fun c hc => bne_iff_ne.mpr fun e => ht (e ▸ hc)
    exact ⟨takeWhile_append_of_stops ht' hm, dropWhile_append_of_stops ht' hm⟩

theorem isQuote_iff {c : Char} : isQuote c = true ↔ c = '\x22' ∨ c = '\x27' ∨ c = '^' := by
  simp [isQuote, quoteMarks]

/-- The reader follows the grammar. -/
theorem lexes_of_lexed {cs text rest : List Char} {k : TokenKind}
    (h : lexed cs = some (k, text, rest)) : Lexes (cs.dropWhile isGap) k text rest := by
  have hstop := stops_dropWhile isGap cs
  unfold lexed lex at h
  generalize cs.takeWhile isGap = gap at h
  generalize cs.dropWhile isGap = ds at h hstop ⊢
  cases ds with
  | nil =>
    simp only [readOf, Option.some.injEq, Prod.mk.injEq] at h
    obtain ⟨rfl, rfl, rfl⟩ := h
    exact .eos
  | cons c ds =>
    dsimp only at h
    by_cases h₁ : (c == '#') = true
    · rw [if_pos h₁] at h
      obtain rfl := beq_iff_eq.mp h₁
      simp only [readOf, Option.some.injEq, Prod.mk.injEq] at h
      obtain ⟨rfl, ht, hr⟩ := h
      obtain ⟨rfl, ht, hr⟩ := comment_iff.mp ⟨ht, hr⟩
      exact .comment ht hr
    rw [if_neg h₁] at h
    by_cases h₂ : (c == ':') = true
    · rw [if_pos h₂] at h
      obtain rfl := beq_iff_eq.mp h₂
      obtain ⟨rfl, gap', rfl, hg, hn, hname, hr⟩ := readOf_lexDefinition_iff.mp h
      exact .startDef hg hn hname hr
    rw [if_neg h₂] at h
    by_cases h₃ : (c == '@' && ds.head? == some ':') = true
    · rw [if_pos h₃] at h
      simp only [Bool.and_eq_true, beq_iff_eq] at h₃
      obtain ⟨rfl, hd⟩ := h₃
      obtain ⟨ds, rfl⟩ := List.head?_eq_some_iff.mp hd
      obtain ⟨rfl, gap', e, hg, hn, hname, hr⟩ := readOf_lexDefinition_iff.mp h
      rw [List.drop_one, List.tail_cons] at e
      subst e
      exact .startMemo hg hn hname hr
    rw [if_neg h₃] at h
    by_cases h₄ : (c == ';') = true
    · rw [if_pos h₄] at h
      obtain rfl := beq_iff_eq.mp h₄
      obtain ⟨rfl, rfl, rfl⟩ := by simpa only [readOf, Option.some.injEq, Prod.mk.injEq] using h
      exact .endDef
    rw [if_neg h₄] at h
    by_cases h₅ : (c == '[') = true
    · rw [if_pos h₅] at h
      obtain rfl := beq_iff_eq.mp h₅
      obtain ⟨rfl, rfl, rfl⟩ := by simpa only [readOf, Option.some.injEq, Prod.mk.injEq] using h
      exact .startArray
    rw [if_neg h₅] at h
    by_cases h₆ : (c == ']') = true
    · rw [if_pos h₆] at h
      obtain rfl := beq_iff_eq.mp h₆
      obtain ⟨rfl, rfl, rfl⟩ := by simpa only [readOf, Option.some.injEq, Prod.mk.injEq] using h
      exact .endArray
    rw [if_neg h₆] at h
    by_cases h₇ : (c == '\x7d') = true
    · rw [if_pos h₇] at h
      obtain rfl := beq_iff_eq.mp h₇
      obtain ⟨rfl, rfl, rfl⟩ := by simpa only [readOf, Option.some.injEq, Prod.mk.injEq] using h
      exact .endModule
    rw [if_neg h₇] at h
    by_cases h₈ : (c == '\x7b') = true
    · rw [if_pos h₈] at h
      obtain rfl := beq_iff_eq.mp h₈
      obtain ⟨name, tail, rfl, hname, ht⟩ := exists_span isBlockName ds
      simp only [readOf, lexModuleName_eq, Option.some.injEq, Prod.mk.injEq,
        takeWhile_append_of_stops hname ht, dropWhile_append_of_stops hname ht] at h
      obtain ⟨rfl, rfl, rfl⟩ := h
      exact .startModule hname ht
    rw [if_neg h₈] at h
    by_cases h₉ : isQuote c = true
    · rw [if_pos h₉] at h
      obtain ⟨rfl, ⟨rfl, hq, hr⟩ | ⟨rfl, ht, hr⟩⟩ := readOf_lexString_iff.mp h
      · exact .quoted h₉ hq hr
      · exact .tripled h₉ ht hr
    rw [if_neg h₉] at h
    by_cases h₁₀ : (c == '.') = true
    · rw [if_pos h₁₀] at h
      obtain rfl := beq_iff_eq.mp h₁₀
      obtain ⟨t, tail, rfl, ht, htail⟩ := exists_span isBare ds
      simp only [lexBare_eq, takeWhile_append_of_stops ht htail,
        dropWhile_append_of_stops ht htail] at h
      cases t with
      | nil =>
        obtain ⟨rfl, rfl, rfl⟩ := by
          simpa only [readOf, Option.some.injEq, Prod.mk.injEq] using h
        exact .dot htail
      | cons d t =>
        obtain ⟨rfl, rfl, rfl⟩ := by
          simpa only [readOf, Option.some.injEq, Prod.mk.injEq] using h
        exact .dotSymbol (by simp) ht htail
    rw [if_neg h₁₀] at h
    obtain ⟨t, tail, rfl, ht, htail⟩ := exists_span isBare ds
    have hc : isBare c = true := by
      have hgap := hstop c (by simp)
      simp only [beq_iff_eq] at h₁ h₄ h₅ h₆ h₇ h₈
      simp [isBare, isTerminator, isNameBracket, hgap, h₁, h₄, h₅, h₆, h₇, h₈]
    have hword : ∀ d ∈ c :: t, isBare d = true := List.forall_mem_cons.mpr ⟨hc, ht⟩
    rw [← List.cons_append] at h
    simp only [lexBare_eq, takeWhile_append_of_stops hword htail,
      dropWhile_append_of_stops hword htail] at h
    obtain ⟨rfl, rfl, rfl⟩ := by simpa only [readOf, Option.some.injEq, Prod.mk.injEq] using h
    refine .word hword (by simpa using h₉) (by simpa using h₁₀) (by simpa using h₂) ?_ htail
    rintro rfl hd
    cases t <;> simp_all

/-- The reader reads all that the grammar allows. -/
theorem lexed_of_lexes {cs text rest : List Char} {k : TokenKind}
    (h : Lexes (cs.dropWhile isGap) k text rest) : lexed cs = some (k, text, rest) := by
  unfold lexed lex
  generalize cs.takeWhile isGap = gap
  generalize cs.dropWhile isGap = ds at h ⊢
  cases h with
  | eos => rfl
  | comment ht hr =>
    obtain ⟨ht', hr'⟩ := comment_iff.mpr ⟨rfl, ht, hr⟩
    change some (TokenKind.comment, _, _) = _
    rw [ht', hr']
  | startDef hg hn h hr => exact readOf_lexDefinition_iff.mpr ⟨rfl, _, rfl, hg, hn, h, hr⟩
  | startMemo hg hn h hr => exact readOf_lexDefinition_iff.mpr ⟨rfl, _, rfl, hg, hn, h, hr⟩
  | startModule hname ht =>
    change some (TokenKind.startModule, (lexModuleName _).1, (lexModuleName _).2.2) = _
    simp only [lexModuleName_eq, takeWhile_append_of_stops hname ht,
      dropWhile_append_of_stops hname ht]
  | quoted hq h hr =>
    have hread := (@readOf_lexString_iff gap ..).mpr ⟨rfl, .inl ⟨rfl, h, hr⟩⟩
    obtain rfl | rfl | rfl := isQuote_iff.mp hq <;> exact hread
  | tripled hq h hr =>
    have hread := (@readOf_lexString_iff gap ..).mpr ⟨rfl, .inr ⟨rfl, h, hr⟩⟩
    obtain rfl | rfl | rfl := isQuote_iff.mp hq <;> exact hread
  | @dot tail ht =>
    have hname : (lexBare tail).1 = [] := by
      rw [(lexBare_eq tail).1]
      simpa using takeWhile_append_of_stops (List.forall_mem_nil (isBare · = true)) ht
    have hrest : (lexBare tail).2.2 = afterGap tail := by
      rw [(lexBare_eq tail).2]
      exact congrArg afterGap (dropWhile_of_stops ht)
    change readOf (if (lexBare tail).1.isEmpty then .ok (⟨.word, gap, [], ['.'], _⟩, _)
      else .ok (⟨.dotSymbol, gap, ['.'], (lexBare tail).1, _⟩, _)) = _
    rw [hname, ← hrest]
    rfl
  | @dotSymbol text tail hn ht htail =>
    have hname : (lexBare (text ++ tail)).1 = text := by
      rw [(lexBare_eq _).1, takeWhile_append_of_stops ht htail]
    have hrest : (lexBare (text ++ tail)).2.2 = afterGap tail := by
      rw [(lexBare_eq _).2, dropWhile_append_of_stops ht htail]
    change readOf (if (lexBare (text ++ tail)).1.isEmpty then .ok (⟨.word, gap, [], ['.'], _⟩, _)
      else .ok (⟨.dotSymbol, gap, ['.'], (lexBare (text ++ tail)).1, _⟩, _)) = _
    rw [hname, ← hrest, if_neg (by simpa using hn)]
    rfl
  | @word c text tail h hq hd hs hm ht =>
    have hbare := h c (by simp)
    simp only [isBare, isTerminator, isNameBracket, Bool.and_eq_true, Bool.not_eq_true',
      Bool.or_eq_false_iff, beq_eq_false_iff_ne] at hbare
    obtain ⟨-, ⟨⟨⟨⟨h₅, h₆⟩, h₈⟩, h₇⟩, h₄⟩, h₁⟩ := hbare
    have hcolon : ¬ (c == '@' && (text ++ tail).head? == some ':') = true := by
      simp only [Bool.and_eq_true, beq_iff_eq, not_and]
      intro hc hhead
      cases text with
      | nil => exact absurd (ht ':' hhead) (by decide)
      | cons d text => exact hm hc hhead
    simp only [List.cons_append, beq_iff_eq, h₁, hs, h₄, h₅, h₆, h₇, h₈, hq, hd, if_false,
      if_neg hcolon, Bool.false_eq_true]
    have hname := takeWhile_append_of_stops h ht
    have hrest := dropWhile_append_of_stops h ht
    rw [List.cons_append] at hname hrest
    simp only [readOf, lexBare_eq, hname, hrest]
  | _ => rfl

/-- A text is read as a lexeme if and only if the grammar says so. -/
theorem lexed_iff {cs text rest : List Char} {k : TokenKind} :
    lexed cs = some (k, text, rest) ↔ Lexes (cs.dropWhile isGap) k text rest :=
  ⟨lexes_of_lexed, lexed_of_lexes⟩

end Wordstack
