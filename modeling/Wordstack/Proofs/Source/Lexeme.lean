import Wordstack.Proofs.Source.Grammar

/-!
# Characters of lexemes

- **Lexemes** (`Lexeme.Formed`): the parts of a lexeme by its kind, behind a gap.
- **Nothing is lost** (`lex_ok`, `lex_error`): what is read and what is left are the text, and if no
  lexeme can be read, so are the characters up to where reading stops.
- **Gaps** (`lex_cons`): a gap character before a text stands before what is read.
-/

namespace Wordstack

/-! ## Parts -/

/-- The parts of a lexeme that is read after a gap, one rule a kind. -/
inductive Lexeme.Formed (gap : List Char) : Lexeme → Prop
  | eos : Formed gap ⟨.eos, gap, [], [], []⟩
  | comment {text} : Formed gap ⟨.comment, gap, ['#'], text, []⟩
  | startDef {blanks name} (h : ∀ c ∈ blanks, isGap c = true) :
    Formed gap ⟨.startDef, gap ++ ':' :: blanks, [], name, []⟩
  | startMemo {blanks name} (h : ∀ c ∈ blanks, isGap c = true) :
    Formed gap ⟨.startMemo, gap ++ '@' :: ':' :: blanks, [], name, []⟩
  | endDef : Formed gap ⟨.endDef, gap, [], [';'], []⟩
  | startArray : Formed gap ⟨.startArray, gap, [], ['['], []⟩
  | endArray : Formed gap ⟨.endArray, gap, [], [']'], []⟩
  | endModule : Formed gap ⟨.endModule, gap, [], ['\x7d'], []⟩
  | startModule {name closer} (h : ∀ c ∈ closer, isGap c = true) :
    Formed gap ⟨.startModule, gap, ['\x7b'], name, closer⟩
  | quoted {q text} (hq : isQuote q = true) : Formed gap ⟨.str, gap, [q], text, [q]⟩
  | tripled {q text} (hq : isQuote q = true) :
    Formed gap ⟨.str, gap, [q, q, q], text, [q, q, q]⟩
  | dotSymbol {text closer} (h : ∀ c ∈ closer, isGap c = true) :
    Formed gap ⟨.dotSymbol, gap, ['.'], text, closer⟩
  | word {text closer} (h : ∀ c ∈ closer, isGap c = true) :
    Formed gap ⟨.word, gap, [], text, closer⟩

/-- The characters read until no lexeme can be. -/
def LexFault.chars : LexFault → List Char
  | unterminated lead opener text => lead ++ opener ++ text
  | badName read _ => read

/-- The parts that words and names of blocks are cut into. -/
theorem span_closer {p : Char → Bool} {cs text closer rest : List Char}
    (h : (match cs.dropWhile p with
      | c :: rest =>
        if isGap c then (cs.takeWhile p, [c], rest) else (cs.takeWhile p, [], c :: rest)
      | [] => (cs.takeWhile p, [], [])) = (text, closer, rest)) :
    cs = text ++ closer ++ rest ∧ ∀ c ∈ closer, isGap c = true := by
  obtain ⟨t, more, rfl, ht, hm⟩ := exists_span p cs
  rw [takeWhile_append_of_stops ht hm, dropWhile_append_of_stops ht hm] at h
  cases more with
  | nil => cases h; simp
  | cons c more =>
    dsimp only at h
    split at h
    case isTrue hc => cases h; simp [hc]
    case isFalse => cases h; simp

theorem lexDefinition_ok {kind : TokenKind} {noun : String} {lead cs rest : List Char} {l : Lexeme}
    (h : lexDefinition kind noun lead cs = .ok (l, rest)) :
    ∃ blanks name, l = ⟨kind, lead ++ blanks, [], name, []⟩ ∧ cs = blanks ++ name ++ rest ∧
      ∀ c ∈ blanks, isGap c = true := by
  obtain ⟨blanks, body, rfl, hblanks, hbody⟩ := exists_span isGap cs
  obtain ⟨name, more, rfl, hname, hm⟩ := exists_span isDefinitionName body
  have ht : (name ++ more).takeWhile (fun c => !isGap c && !isQuote c && !isNameBracket c) = name :=
    takeWhile_append_of_stops hname hm
  have hd : (name ++ more).dropWhile (fun c => !isGap c && !isQuote c && !isNameBracket c) = more :=
    dropWhile_append_of_stops hname hm
  refine ⟨blanks, name, ?_⟩
  simp only [lexDefinition, takeWhile_append_of_stops hblanks hbody,
    dropWhile_append_of_stops hblanks hbody, ht, hd] at h
  split at h
  case isTrue => cases h
  case isFalse =>
    cases more with
    | nil => cases h; exact ⟨rfl, by simp, hblanks⟩
    | cons c more =>
      dsimp only at h
      split at h
      case isTrue => cases h; exact ⟨rfl, by simp, hblanks⟩
      case isFalse => split at h <;> cases h

theorem lexString_ok {gap cs rest : List Char} {q : Char} {l : Lexeme}
    (h : lexString gap q cs = .ok (l, rest)) :
    (∃ text, l = ⟨.str, gap, [q], text, [q]⟩ ∧ cs = text ++ q :: rest) ∨
      ∃ text, l = ⟨.str, gap, [q, q, q], text, [q, q, q]⟩ ∧
        cs = q :: q :: (text ++ q :: q :: q :: rest) := by
  unfold lexString at h
  split at h
  case h_1 b c body =>
    split at h
    case isTrue hbc =>
      simp only [Bool.and_eq_true, beq_iff_eq] at hbc
      obtain ⟨rfl, rfl⟩ := hbc
      split at h
      case h_1 text rest' hread =>
        cases h
        exact .inr ⟨text, rfl, by rw [(lexTripleQuoted_iff.mp hread).1]⟩
      case h_2 => cases h
    case isFalse =>
      split at h
      case h_1 text rest' hread =>
        cases h
        exact .inl ⟨text, rfl, (lexQuoted_iff.mp hread).1⟩
      case h_2 => cases h
  case h_2 =>
    split at h
    case h_1 text rest' hread =>
      cases h
      exact .inl ⟨text, rfl, (lexQuoted_iff.mp hread).1⟩
    case h_2 => cases h

/-- A lexeme is formed by the rule of its kind, and its characters are what was taken from the
text. -/
theorem lex_ok {cs rest : List Char} {l : Lexeme} :
    lex cs = .ok (l, rest) → cs = l.chars ++ rest ∧ l.Formed (cs.takeWhile isGap) := by
  have hspan : cs.takeWhile isGap ++ cs.dropWhile isGap = cs := List.takeWhile_append_dropWhile
  fun_cases lex cs with
  | case1 gap hd =>
    rintro ⟨⟩
    rw [hd] at hspan
    exact ⟨by simpa [Lexeme.chars] using hspan.symm, .eos⟩
  | case2 gap c ds hd hc =>
    rintro ⟨⟩
    obtain rfl := beq_iff_eq.mp hc
    rw [hd] at hspan
    exact ⟨by simpa [Lexeme.chars] using hspan.symm, .comment⟩
  | case3 gap c ds hd _ hc =>
    intro h
    obtain rfl := beq_iff_eq.mp hc
    obtain ⟨blanks, name, rfl, rfl, hblanks⟩ := lexDefinition_ok h
    rw [hd] at hspan
    rw [List.append_assoc gap]
    exact ⟨by simpa [Lexeme.chars] using hspan.symm, .startDef hblanks⟩
  | case4 gap c ds hd _ _ hc =>
    intro h
    simp only [Bool.and_eq_true, beq_iff_eq] at hc
    obtain ⟨rfl, hc⟩ := hc
    obtain ⟨ds, rfl⟩ := List.head?_eq_some_iff.mp hc
    obtain ⟨blanks, name, rfl, e, hblanks⟩ := lexDefinition_ok h
    rw [List.drop_one, List.tail_cons] at e
    rw [hd, e] at hspan
    rw [List.append_assoc gap]
    exact ⟨by simpa [Lexeme.chars] using hspan.symm, .startMemo hblanks⟩
  | case5 gap c ds hd _ _ _ hc =>
    rintro ⟨⟩
    obtain rfl := beq_iff_eq.mp hc
    rw [hd] at hspan
    exact ⟨by simpa [Lexeme.chars] using hspan.symm, .endDef⟩
  | case6 gap c ds hd _ _ _ _ hc =>
    rintro ⟨⟩
    obtain rfl := beq_iff_eq.mp hc
    rw [hd] at hspan
    exact ⟨by simpa [Lexeme.chars] using hspan.symm, .startArray⟩
  | case7 gap c ds hd _ _ _ _ _ hc =>
    rintro ⟨⟩
    obtain rfl := beq_iff_eq.mp hc
    rw [hd] at hspan
    exact ⟨by simpa [Lexeme.chars] using hspan.symm, .endArray⟩
  | case8 gap c ds hd _ _ _ _ _ _ hc =>
    rintro ⟨⟩
    obtain rfl := beq_iff_eq.mp hc
    rw [hd] at hspan
    exact ⟨by simpa [Lexeme.chars] using hspan.symm, .endModule⟩
  | case9 gap c ds hd _ _ _ _ _ _ _ hc name closer rest' hread =>
    rintro ⟨⟩
    obtain rfl := beq_iff_eq.mp hc
    obtain ⟨rfl, hcloser⟩ := span_closer hread
    rw [hd] at hspan
    exact ⟨by simpa [Lexeme.chars] using hspan.symm, .startModule hcloser⟩
  | case10 gap c ds hd _ _ _ _ _ _ _ _ hc =>
    intro h
    obtain ⟨text, rfl, rfl⟩ | ⟨text, rfl, rfl⟩ := lexString_ok h
    · rw [hd] at hspan
      exact ⟨by simpa [Lexeme.chars] using hspan.symm, .quoted hc⟩
    · rw [hd] at hspan
      exact ⟨by simpa [Lexeme.chars] using hspan.symm, .tripled hc⟩
  | case11 gap c ds hd _ _ _ _ _ _ _ _ _ hc name closer rest' hread hn =>
    rintro ⟨⟩
    obtain rfl := beq_iff_eq.mp hc
    obtain ⟨rfl, hcloser⟩ := span_closer hread
    rw [hd] at hspan
    exact ⟨by simpa [Lexeme.chars, List.isEmpty_iff.mp hn] using hspan.symm, .word hcloser⟩
  | case12 gap c ds hd _ _ _ _ _ _ _ _ _ hc name closer rest' hread hn =>
    rintro ⟨⟩
    obtain rfl := beq_iff_eq.mp hc
    obtain ⟨rfl, hcloser⟩ := span_closer hread
    rw [hd] at hspan
    exact ⟨by simpa [Lexeme.chars] using hspan.symm, .dotSymbol hcloser⟩
  | case13 gap c ds hd _ _ _ _ _ _ _ _ _ _ name closer rest' hread =>
    rintro ⟨⟩
    obtain ⟨e, hcloser⟩ := span_closer hread
    rw [hd, e] at hspan
    exact ⟨by simpa [Lexeme.chars] using hspan.symm, .word hcloser⟩

theorem lexDefinition_error {kind : TokenKind} {noun : String} {lead cs : List Char} {f : LexFault}
    (h : lexDefinition kind noun lead cs = .error f) :
    ∃ read note rest, f = .badName (lead ++ read) note ∧ cs = read ++ rest := by
  obtain ⟨blanks, body, rfl, hblanks, hbody⟩ := exists_span isGap cs
  obtain ⟨name, more, rfl, hname, hm⟩ := exists_span isDefinitionName body
  have ht : (name ++ more).takeWhile (fun c => !isGap c && !isQuote c && !isNameBracket c) = name :=
    takeWhile_append_of_stops hname hm
  have hd : (name ++ more).dropWhile (fun c => !isGap c && !isQuote c && !isNameBracket c) = more :=
    dropWhile_append_of_stops hname hm
  simp only [lexDefinition, takeWhile_append_of_stops hblanks hbody,
    dropWhile_append_of_stops hblanks hbody, ht, hd] at h
  split at h
  case isTrue => cases h; exact ⟨blanks, _, _, rfl, rfl⟩
  case isFalse =>
    cases more with
    | nil => cases h
    | cons c more =>
      dsimp only at h
      split at h
      case isTrue => cases h
      case isFalse =>
        split at h <;> cases h
        · exact ⟨blanks ++ name, _, c :: more, by rw [List.append_assoc], by simp⟩
        · exact ⟨blanks ++ name, _, c :: more, by rw [List.append_assoc], by simp⟩

theorem lexString_error {gap cs : List Char} {q : Char} {f : LexFault}
    (h : lexString gap q cs = .error f) :
    ∃ opener text, f = .unterminated gap opener text ∧ q :: cs = opener ++ text := by
  unfold lexString at h
  split at h
  case h_1 b c body =>
    split at h
    case isTrue hbc =>
      simp only [Bool.and_eq_true, beq_iff_eq] at hbc
      obtain ⟨rfl, rfl⟩ := hbc
      split at h <;> cases h
      exact ⟨_, _, rfl, rfl⟩
    case isFalse =>
      split at h <;> cases h
      exact ⟨_, _, rfl, rfl⟩
  case h_2 =>
    split at h <;> cases h
    exact ⟨_, _, rfl, rfl⟩

/-- What a text is left with when no lexeme can be read. -/
def LexFault.rest (cs : List Char) : LexFault → List Char
  | unterminated .. => []
  | badName read _ => cs.drop read.length

/-- Where no lexeme can be read, reading stops inside of the text or at its end. -/
theorem lex_error {cs : List Char} {f : LexFault} :
    lex cs = .error f → cs = f.chars ++ f.rest cs := by
  have hspan : cs.takeWhile isGap ++ cs.dropWhile isGap = cs := List.takeWhile_append_dropWhile
  have named {read : List Char} {note : String} (rest : List Char) (h : cs = read ++ rest) :
      cs = (LexFault.badName read note).chars ++ (LexFault.badName read note).rest cs := by
    rw [h, LexFault.chars, LexFault.rest, List.drop_left]
  fun_cases lex cs with
  | case3 gap c ds hd =>
    intro h
    obtain ⟨read, note, rest, rfl, rfl⟩ := lexDefinition_error h
    rw [hd] at hspan
    exact named rest (by simpa using hspan.symm)
  | case4 gap c ds hd _ _ hc =>
    intro h
    simp only [Bool.and_eq_true, beq_iff_eq] at hc
    obtain ⟨rfl, hc⟩ := hc
    obtain ⟨ds, rfl⟩ := List.head?_eq_some_iff.mp hc
    obtain ⟨read, note, rest, rfl, e⟩ := lexDefinition_error h
    rw [List.drop_one, List.tail_cons] at e
    rw [hd, e] at hspan
    exact named rest (by simpa using hspan.symm)
  | case10 gap c ds hd =>
    intro h
    obtain ⟨opener, text, rfl, e⟩ := lexString_error h
    rw [hd, e] at hspan
    simpa [LexFault.chars, LexFault.rest] using hspan.symm
  | _ => rintro ⟨⟩

/-! ## Gaps -/

/-- The lexeme with a gap character before it. -/
def Lexeme.behind (c : Char) (l : Lexeme) : Lexeme := { l with lead := c :: l.lead }

/-- The fault with a gap character before what was read. -/
def LexFault.behind (c : Char) : LexFault → LexFault
  | unterminated lead opener text => unterminated (c :: lead) opener text
  | badName read note => badName (c :: read) note

/-- What is read behind a gap character. -/
def readBehind (c : Char) :
    Except LexFault (Lexeme × List Char) → Except LexFault (Lexeme × List Char)
  | .ok (l, rest) => .ok (l.behind c, rest)
  | .error f => .error (f.behind c)

theorem lexDefinition_cons (kind : TokenKind) (noun : String) (c : Char) (lead cs : List Char) :
    lexDefinition kind noun (c :: lead) cs = readBehind c (lexDefinition kind noun lead cs) := by
  unfold lexDefinition
  dsimp only
  split
  case isTrue => rfl
  case isFalse =>
    split
    case h_1 => rfl
    case h_2 =>
      split
      case isTrue => rfl
      case isFalse => split <;> rfl

theorem lexString_cons (c : Char) (gap : List Char) (q : Char) (cs : List Char) :
    lexString (c :: gap) q cs = readBehind c (lexString gap q cs) := by
  unfold lexString
  split
  case h_1 => split <;> split <;> rfl
  case h_2 => split <;> rfl

theorem lex_cons {c : Char} (hc : isGap c = true) (cs : List Char) :
    lex (c :: cs) = readBehind c (lex cs) := by
  unfold lex
  rw [List.takeWhile_cons_of_pos hc, List.dropWhile_cons_of_pos hc]
  generalize cs.takeWhile isGap = gap
  cases cs.dropWhile isGap with
  | nil => rfl
  | cons d ds =>
    dsimp only
    simp only [List.cons_append, lexDefinition_cons, lexString_cons, apply_ite (readBehind c)]
    rfl

end Wordstack
