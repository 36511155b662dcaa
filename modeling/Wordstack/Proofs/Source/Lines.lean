import Wordstack.Proofs.Source.Entities
import Wordstack.Proofs.Source.Locations
import Wordstack.Proofs.Source.Reading

/-!
# Texts line by line

- **Lexemes** (`lex_append`): a line break behind a lexeme makes no difference to it.
- **Scanning** (`Scanner.Scans`): the tokens that a scanner reads, and what it stops with. A gap before
  them makes no difference, and the input is named by faults only.
- **Lines** (`Scanner.Scans.goingOn`, `Scanner.Scans.lines`): a text and a line behind it are read one
  after the other, the line from where it begins (`Location.nextLine`).
- **Tokens** (`tokenize_lines`): the tokens of the text and then those of the line.
-/

namespace Wordstack

/-! ## Lexemes before a line break -/

/-- No gap begins where a lexeme does. -/
theorem Lexes.stops_append {cs text rest more : List Char} {k : TokenKind}
    (h : Lexes cs k text rest) (hk : k ≠ .eos) (hs : Stops isGap cs) :
    Stops isGap (cs ++ more) := by
  cases h with
  | eos => exact absurd rfl hk
  | _ => simpa [Stops] using hs

theorem Lexes.eq_nil_of_eos {cs text rest : List Char} (h : Lexes cs .eos text rest) : cs = [] := by
  cases h
  rfl

/-- The name of a definition ends where a gap begins. -/
theorem Lexes.append_name {cs text rest : List Char} {k : TokenKind} {c : Char}
    (more : List Char) (h : Lexes cs k text rest) (hk : k = .startDef ∨ k = .startMemo)
    (hc : isGap c = true) : Lexes (cs ++ c :: more) k text (rest ++ c :: more) := by
  have gap : ∀ c, isGap c = true → (!isGap c) = false := by simp
  cases h with
  | startDef hg hn h hr =>
    rw [List.cons_append, List.append_assoc]
    exact .startDef hg hn h (hr.append_gap gap hc)
  | startMemo hg hn h hr =>
    rw [List.cons_append, List.cons_append, List.append_assoc]
    exact .startMemo hg hn h (hr.append_gap gap hc)
  | _ => simp at hk

theorem lexed_append_name {cs text rest : List Char} {k : TokenKind} {c : Char}
    (more : List Char) (h : lexed cs = some (k, text, rest)) (hk : k = .startDef ∨ k = .startMemo)
    (hc : isGap c = true) : lexed (cs ++ c :: more) = some (k, text, rest ++ c :: more) := by
  obtain ⟨gap, body, rfl, hgap, hbody⟩ := exists_span isGap cs
  have hl := lexed_iff.mp h
  rw [dropWhile_append_of_stops hgap hbody] at hl
  have hne : k ≠ .eos := by rintro rfl; simp at hk
  rw [lexed_iff, List.append_assoc,
    dropWhile_append_of_stops hgap (hl.stops_append hne hbody)]
  exact hl.append_name more hk hc

theorem lexed_of_lex {cs rest : List Char} {l : Lexeme} (h : lex cs = .ok (l, rest)) :
    lexed cs = some (l.kind, l.text, rest) := by
  rw [lexed, h]
  rfl

theorem exists_lex_of_lexed {cs text rest : List Char} {k : TokenKind}
    (h : lexed cs = some (k, text, rest)) :
    ∃ l, lex cs = .ok (l, rest) ∧ l.kind = k ∧ l.text = text := by
  unfold lexed readOf at h
  split at h
  case h_1 l rest' hl =>
    cases h
    exact ⟨l, hl, rfl, rfl⟩
  case h_2 => cases h

/-- The gap before a lexeme does not depend on what stands behind the lexeme. -/
theorem takeWhile_gap_append {cs rest : List Char} {l : Lexeme} (more : List Char)
    (h : lex cs = .ok (l, rest)) (hk : l.kind ≠ .eos) :
    (cs ++ more).takeWhile isGap = cs.takeWhile isGap := by
  obtain ⟨gap, body, rfl, hgap, hbody⟩ := exists_span isGap cs
  have hl := lexed_iff.mp (lexed_of_lex h)
  rw [dropWhile_append_of_stops hgap hbody] at hl
  rw [List.append_assoc, takeWhile_append_of_stops hgap (hl.stops_append hk hbody), takeWhile_append_of_stops hgap hbody]

theorem Lexeme.Formed.lead_of_ne {gap : List Char} {l : Lexeme} (h : l.Formed gap)
    (hk : ¬ (l.kind = .startDef ∨ l.kind = .startMemo)) : l.lead = gap := by
  cases h <;> simp_all

theorem Lexeme.Formed.chars_of_name {gap : List Char} {l : Lexeme} (h : l.Formed gap)
    (hk : l.kind = .startDef ∨ l.kind = .startMemo) : l.chars = l.lead ++ l.text := by
  cases h <;> simp_all [Lexeme.chars]

/-- A lexeme is read before a line break as at the end of a text, and the line break may be taken
with it. -/
theorem lex_append {cs rest : List Char} {l : Lexeme} (more : List Char)
    (h : lex cs = .ok (l, rest)) (hk : l.kind ≠ .eos) :
    ∃ l' rest', lex (cs ++ '\n' :: more) = .ok (l', rest') ∧ l'.kind = l.kind ∧
      l'.text = l.text ∧ l'.lead = l.lead ∧
      (rest' = rest ++ '\n' :: more ∧ l'.chars = l.chars ∨
        rest = [] ∧ rest' = more ∧ l'.chars = l.chars ++ ['\n']) := by
  obtain ⟨hchars, hformed⟩ := lex_ok h
  by_cases hname : l.kind = .startDef ∨ l.kind = .startMemo
  · obtain ⟨l', h', hkind, htext⟩ :=
      exists_lex_of_lexed (lexed_append_name more (lexed_of_lex h) hname (c := '\n') (by decide))
    obtain ⟨hchars', hformed'⟩ := lex_ok h'
    have hsame : l'.chars = l.chars := by
      rw [hchars, List.append_assoc] at hchars'
      exact (List.append_cancel_right hchars').symm
    refine ⟨l', _, h', hkind, htext, ?_, .inl ⟨rfl, hsame⟩⟩
    rw [hformed.chars_of_name hname, hformed'.chars_of_name (hkind ▸ hname), htext] at hsame
    exact List.append_cancel_right hsame
  · obtain ⟨rest', hlexed', hrest'⟩ :=
      lexed_append more (lexed_of_lex h) hk (c := '\n') (by decide) fun _ _ => rfl
    obtain ⟨l', h', hkind, htext⟩ := exists_lex_of_lexed hlexed'
    obtain ⟨hchars', hformed'⟩ := lex_ok h'
    refine ⟨l', rest', h', hkind, htext, ?_, ?_⟩
    · rw [hformed.lead_of_ne hname, hformed'.lead_of_ne (hkind ▸ hname),
        takeWhile_gap_append _ h hk]
    rw [hchars] at hchars'
    obtain rfl | ⟨rfl, rfl⟩ := hrest'
    · rw [List.append_assoc] at hchars'
      exact .inl ⟨rfl, (List.append_cancel_right hchars').symm⟩
    · refine .inr ⟨rfl, rfl, ((List.append_left_inj rest').mp ?_).symm⟩
      simpa using hchars'

/-! ## Scanning -/

namespace Scanner

/-- The scanner reads these tokens and stops with the end of its text or a fault. -/
inductive Scans : Scanner → List Token → Except Fault Token → Prop
  | fault {s s' : Scanner} {f : Fault} (h : s.next = (.error f, s')) : Scans s [] (.error f)
  | eos {s s' : Scanner} {t : Token} (h : s.next = (.ok t, s')) (hk : t.kind = .eos) :
    Scans s [] (.ok t)
  | next {s s' : Scanner} {t : Token} {ts : List Token} {stop : Except Fault Token}
    (h : s.next = (.ok t, s')) (hk : t.kind ≠ .eos) (tail : Scans s' ts stop) :
    Scans s (t :: ts) stop

variable {s s' : Scanner}

theorem Scans.congr {ts : List Token} {stop : Except Fault Token} (h : s.Scans ts stop)
    (hn : s'.next = s.next) : s'.Scans ts stop := by
  cases h with
  | fault h => exact .fault (hn.trans h)
  | eos h hk => exact .eos (hn.trans h) hk
  | next h hk tail => exact .next (hn.trans h) hk tail

theorem Scans.unique {ts us : List Token} {stop stop' : Except Fault Token} (h : s.Scans ts stop)
    (h' : s.Scans us stop') : us = ts ∧ stop' = stop := by
  induction h generalizing us with
  | fault h => cases h' <;> simp_all
  | eos h hk => cases h' <;> simp_all
  | next h hk _ ih =>
    cases h' with
    | next h₁ hk₁ tail =>
      obtain ⟨rfl, rfl⟩ := by simpa using h.symm.trans h₁
      obtain ⟨rfl, rfl⟩ := ih tail
      exact ⟨rfl, rfl⟩
    | _ => simp_all

theorem Scans.kind_eos {ts : List Token} {t : Token} (h : s.Scans ts (.ok t)) : t.kind = .eos := by
  generalize hstop : (.ok t : Except Fault Token) = stop at h
  induction h with
  | fault => cases hstop
  | eos _ hk => cases hstop; exact hk
  | next _ _ _ ih => exact ih hstop

/-- With a bound above the number of characters all tokens are read. -/
theorem tokensWithin_scans {bound : Nat} (hb : s.rest.length < bound) :
    s.Scans (s.tokensWithin bound).tokens (s.tokensWithin bound).stop := by
  induction bound generalizing s with
  | zero => omega
  | succ bound ih =>
    unfold tokensWithin
    cases hn : s.next with
    | mk o s' =>
      cases o with
      | error f => exact .fault hn
      | ok t =>
        by_cases hk : t.kind = .eos
        · simpa only [if_pos hk] using .eos hn hk
        · simp only [if_neg hk]
          have hlt := rest_lt hn hk
          exact .next hn hk (ih (by omega))

theorem tokens_scans (s : Scanner) : s.Scans s.tokens.tokens s.tokens.stop :=
  tokensWithin_scans (Nat.lt_succ_self _)

/-- A gap makes no difference to what is read behind it. -/
theorem next_of_gap {c : Char} {cs : List Char} (h : s.rest = c :: cs) (hc : isGap c = true) :
    s.next = (s.after [c] cs).next := by
  unfold next
  rw [h, lex_cons hc, show (s.after [c] cs).rest = cs from rfl]
  cases lex cs with
  | ok r => rfl
  | error f => cases f <;> rfl

theorem after_nil {more : List Char} (h : s.rest = more) : s.after [] more = s := by
  cases s
  cases h
  rfl

theorem Scans.of_gap {gap more : List Char} {ts : List Token} {stop : Except Fault Token}
    (hr : s.rest = gap ++ more) (hg : ∀ c ∈ gap, isGap c = true)
    (h : (s.after gap more).Scans ts stop) : s.Scans ts stop := by
  induction gap generalizing s with
  | nil => exact h.congr (by rw [after_nil (show s.rest = more from hr)])
  | cons c gap ih =>
    have hg := List.forall_mem_cons.mp hg
    exact (ih (s := s.after [c] (gap ++ more)) rfl hg.2 h).congr (next_of_gap hr hg.1)

/-! ## Lines -/

/-- The scanner of an input that goes on with another line. -/
def goingOn (s : Scanner) (input : String) (line : List Char) : Scanner :=
  { s with input, rest := s.rest ++ '\n' :: line }

/-- The scanner of an input at the start of the line after what is left of a text. -/
def nextLine (s : Scanner) (input : String) (line : List Char) : Scanner :=
  { s with input, rest := line, place := (s.place.after s.rest).step '\n' }

theorem next_goingOn {t : Token} (input : String) (line : List Char) (h : s.next = (.ok t, s'))
    (hk : t.kind ≠ .eos) : (s.goingOn input line).next = (.ok t, s'.goingOn input line) ∨
      s'.rest = [] ∧ (s.goingOn input line).next = (.ok t, s'.nextLine input line) := by
  obtain ⟨l, rest, hl, rfl, rfl⟩ := exists_of_next h
  obtain ⟨l', rest', hl', hkind, htext, hlead, hrest⟩ := lex_append line hl hk
  have hnext := next_of_lex (s := s.goingOn input line) hl'
  rw [hkind, htext, hlead] at hnext
  rw [hnext]
  obtain ⟨rfl, hchars⟩ | ⟨rfl, rfl, hchars⟩ := hrest
  · left
    rw [hchars]
    rfl
  · refine .inr ⟨rfl, ?_⟩
    rw [hchars]
    simp only [after, goingOn, nextLine, Place.after_append]
    rfl

/-- Only a gap is left where the end is read. -/
theorem forall_isGap_of_eos {t : Token} (h : s.next = (.ok t, s')) (hk : t.kind = .eos) :
    ∀ c ∈ s.rest, isGap c = true := by
  obtain ⟨l, rest, hl, rfl, rfl⟩ := exists_of_next h
  obtain ⟨gap, body, hrest, hgap, hbody⟩ := exists_span isGap s.rest
  have hlexes := lexed_iff.mp (lexed_of_lex hl)
  rw [hrest, dropWhile_append_of_stops hgap hbody, show l.kind = .eos from hk] at hlexes
  obtain rfl := hlexes.eq_nil_of_eos
  rw [hrest, List.append_nil]
  exact hgap

/-- A text with another line behind it is read as the text and then as the line. -/
theorem Scans.goingOn {ts us : List Token} {t : Token} {stop : Except Fault Token} {input : String}
    {line : List Char} (h : s.Scans ts (.ok t))
    (hline : (s.nextLine input line).Scans us stop) :
    (s.goingOn input line).Scans (ts ++ us) stop := by
  generalize hend : (.ok t : Except Fault Token) = o at h
  induction h with
  | fault => cases hend
  | @eos s s' t h hk =>
    have hbreak : ∀ c ∈ s.rest ++ ['\n'], isGap c = true :=
      List.forall_mem_append.mpr ⟨forall_isGap_of_eos h hk, List.forall_mem_singleton.mpr rfl⟩
    have hrest : (s.goingOn input line).rest = s.rest ++ ['\n'] ++ line := by
      simp [Scanner.goingOn]
    have hplace : (s.goingOn input line).after (s.rest ++ ['\n']) line = s.nextLine input line := by
      simp only [after, Scanner.goingOn, nextLine, Place.after_append]
      rfl
    refine Scans.of_gap hrest hbreak ?_
    rwa [hplace]
  | @next s s' t ts stop h hk tail ih =>
    have hlater : s'.nextLine input line = s.nextLine input line := by
      obtain ⟨l, rest, hl, rfl, rfl⟩ := exists_of_next h
      obtain ⟨hchars, -⟩ := lex_ok hl
      simp only [nextLine, after, hchars, Place.after_append]
    rw [← hlater] at hline
    obtain hnext | ⟨hs', hnext⟩ := next_goingOn input line h hk
    · exact .next hnext hk (ih hline hend)
    · obtain rfl : ts = [] := by
        cases tail with
        | next h' hk' =>
          have := rest_lt h' hk'
          simp [hs'] at this
        | _ => rfl
      exact .next hnext hk hline

/-! ## Other inputs -/

end Scanner

/-- Faults of one kind with one message at one location; the text being run may differ. -/
structure Fault.Similar (f g : Fault) : Prop where
  kind : f.kindName? = g.kindName?
  message : f.message = g.message
  location : f.location? = g.location?

/-- Reading stops at the same end of the source, or with similar faults. -/
inductive SameStop : Except Fault Token → Except Fault Token → Prop
  | eos (t : Token) : SameStop (.ok t) (.ok t)
  | fault {f g : Fault} (h : f.Similar g) : SameStop (.error f) (.error g)

namespace Scanner

variable {s s' : Scanner}

/-- The scanner of another input of which the same is left. -/
def within (s : Scanner) (input : String) : Scanner := { s with input }

/-- Only faults name the input. -/
theorem next_within (s : Scanner) (input : String) :
    (s.within input).next.2 = s.next.2.within input ∧
      ((∃ t, s.next.1 = .ok t ∧ (s.within input).next.1 = .ok t) ∨
        ∃ f g, s.next.1 = .error f ∧ (s.within input).next.1 = .error g ∧ f.Similar g) := by
  unfold next
  rw [show (s.within input).rest = s.rest from rfl]
  cases lex s.rest with
  | ok r => exact ⟨rfl, .inl ⟨_, rfl, rfl⟩⟩
  | error f =>
    cases f with
    | unterminated => exact ⟨rfl, .inr ⟨_, _, rfl, rfl, rfl, rfl, rfl⟩⟩
    | badName => exact ⟨rfl, .inr ⟨_, _, rfl, rfl, rfl, rfl, rfl⟩⟩

theorem Scans.within {ts : List Token} {stop : Except Fault Token} (h : s.Scans ts stop)
    (input : String) : ∃ stop', (s.within input).Scans ts stop' ∧ SameStop stop stop' := by
  induction h with
  | @fault s s' f h =>
    obtain ⟨-, ⟨t, h₁, -⟩ | ⟨f', g, h₁, h₂, hfg⟩⟩ := s.next_within input
    · rw [h] at h₁; cases h₁
    · rw [h] at h₁
      cases h₁
      exact ⟨_, .fault (Prod.ext h₂ rfl), .fault hfg⟩
  | @eos s s' t h hk =>
    obtain ⟨-, ⟨t', h₁, h₂⟩ | ⟨f', g, h₁, -⟩⟩ := s.next_within input
    · rw [h] at h₁
      cases h₁
      exact ⟨_, .eos (Prod.ext h₂ rfl) hk, .eos t⟩
    · rw [h] at h₁; cases h₁
  | @next s s' t ts stop h hk _ ih =>
    obtain ⟨hscanner, ⟨t', h₁, h₂⟩ | ⟨f', g, h₁, -⟩⟩ := s.next_within input
    · rw [h] at h₁ hscanner
      cases h₁
      obtain ⟨stop', htail, hstop⟩ := ih
      exact ⟨stop', .next (by rw [← h₂, ← hscanner]) hk htail, hstop⟩
    · rw [h] at h₁; cases h₁

end Scanner

/-! ## Texts line by line -/

/-- The location where the line after a text begins. -/
def Location.nextLine (origin : Location) (text : String) : Location :=
  { origin with
    line := origin.line + (unescape text.toList).count '\n' + 1
    column := 1
    startPos := origin.startPos + Text.units (unescape text.toList) + 1 }

theorem start_goingOn (text line : String) (origin : Location) :
    Scanner.start (text ++ "\n" ++ line) origin =
      (Scanner.start text origin).goingOn (Scanner.start (text ++ "\n" ++ line) origin).input
        (unescape line.toList) := by
  have happend : unescape (text ++ "\n" ++ line).toList =
      unescape text.toList ++ '\n' :: unescape line.toList := by
    rw [← unescape_append_cons (by decide)]
    simp
  unfold Scanner.start Scanner.goingOn
  simp only [happend]

theorem start_nextLine (text line input : String) (origin : Location) :
    (Scanner.start text origin).nextLine input (unescape line.toList) =
      (Scanner.start line (origin.nextLine text)).within input := by
  have hplace : (origin.place.after (unescape text.toList)).step '\n' =
      (origin.nextLine text).place := by
    show Place.mk _ _ _ = Place.mk _ _ _
    rw [Place.after_line, Place.after_position]
    rfl
  unfold Scanner.nextLine
  rw [show (Scanner.start text origin).place = origin.place from rfl, show
    (Scanner.start text origin).rest = unescape text.toList from rfl, hplace]
  rfl

/-- Reading a text and a line behind it gives the tokens of the text and then those of the line. -/
theorem Scanner.Scans.lines {text line : String} {origin : Location} {ts us : List Token}
    {t : Token} {stop : Except Fault Token} (htext : (start text origin).Scans ts (.ok t))
    (hline : (start line (origin.nextLine text)).Scans us stop) :
    ∃ stop', (start (text ++ "\n" ++ line) origin).Scans (ts ++ us) stop' ∧
      SameStop stop stop' := by
  obtain ⟨stop', hline, hstop⟩ := hline.within (start (text ++ "\n" ++ line) origin).input
  rw [← start_nextLine] at hline
  rw [start_goingOn]
  exact ⟨stop', htext.goingOn hline, hstop⟩

theorem tokenize_eq_ok_iff {text : String} {origin : Location} {ts : List Token} :
    tokenize text origin = .ok ts ↔ ∃ t, (Scanner.start text origin).Scans ts (.ok t) := by
  have hscans := (Scanner.start text origin).tokens_scans
  unfold tokenize
  generalize (Scanner.start text origin).tokens = r at hscans ⊢
  obtain ⟨us, stop, scanner⟩ := r
  constructor
  · intro h
    cases stop with
    | ok t => cases h; exact ⟨t, hscans⟩
    | error f => cases h
  · rintro ⟨t, h⟩
    obtain ⟨rfl, rfl⟩ := h.unique hscans
    rfl

theorem tokenize_eq_error_iff {text : String} {origin : Location} {f : Fault} :
    tokenize text origin = .error f ↔ ∃ ts, (Scanner.start text origin).Scans ts (.error f) := by
  have hscans := (Scanner.start text origin).tokens_scans
  unfold tokenize
  generalize (Scanner.start text origin).tokens = r at hscans ⊢
  obtain ⟨us, stop, scanner⟩ := r
  constructor
  · intro h
    cases stop with
    | ok t => cases h
    | error f => cases h; exact ⟨us, hscans⟩
  · rintro ⟨ts, h⟩
    obtain ⟨rfl, rfl⟩ := h.unique hscans
    rfl

/-- A text that can be tokenized and a line behind it have the tokens of the text and then those of
the line, read from where the line begins; and they cannot be tokenized if and only if the line
cannot, with the same kind of fault, message and location. -/
theorem tokenize_lines {text : String} {origin : Location} {ts : List Token}
    (h : tokenize text origin = .ok ts) (line : String) :
    match tokenize line (origin.nextLine text) with
    | .ok us => tokenize (text ++ "\n" ++ line) origin = .ok (ts ++ us)
    | .error f => ∃ g, tokenize (text ++ "\n" ++ line) origin = .error g ∧ f.Similar g := by
  obtain ⟨t, htext⟩ := tokenize_eq_ok_iff.mp h
  cases hl : tokenize line (origin.nextLine text) with
  | ok us =>
    obtain ⟨t', hline⟩ := tokenize_eq_ok_iff.mp hl
    obtain ⟨stop', hscans, hstop⟩ := htext.lines hline
    cases hstop
    exact tokenize_eq_ok_iff.mpr ⟨_, hscans⟩
  | error f =>
    obtain ⟨us, hline⟩ := tokenize_eq_error_iff.mp hl
    obtain ⟨stop', hscans, hstop⟩ := htext.lines hline
    cases hstop with
    | fault hfg => exact ⟨_, tokenize_eq_error_iff.mpr ⟨_, hscans⟩, hfg⟩

/-- A comment at the end of the first line and a string in quotes of both lines. -/
theorem tokenize_lines_comment : ∃ ts us,
    tokenize ": F &lt; ; \"\"\"a\n\"\"\" # c" .origin = .ok ts ∧
      tokenize "x '''y'''" (Location.origin.nextLine ": F &lt; ; \"\"\"a\n\"\"\" # c") = .ok us ∧
      us.map Token.location = [⟨none, 3, 1, 21, 22⟩, ⟨none, 3, 3, 23, 24⟩] ∧
      tokenize ": F &lt; ; \"\"\"a\n\"\"\" # c\nx '''y'''" .origin = .ok (ts ++ us) := by
  have htext : (tokenize ": F &lt; ; \"\"\"a\n\"\"\" # c" .origin).toOption.isSome = true := by
    decide +kernel
  have hline : ((tokenize "x '''y'''"
      (Location.origin.nextLine ": F &lt; ; \"\"\"a\n\"\"\" # c")).toOption.map
        (·.map Token.location)) = some [⟨none, 3, 1, 21, 22⟩, ⟨none, 3, 3, 23, 24⟩] := by
    decide +kernel
  obtain ⟨ts, hts⟩ := Option.isSome_iff_exists.mp htext
  obtain ⟨us, hus, hlocations⟩ := Option.map_eq_some_iff.mp hline
  replace hts := eq_ok_of_toOption_eq_some hts
  replace hus := eq_ok_of_toOption_eq_some hus
  have hlines := tokenize_lines hts "x '''y'''"
  rw [hus] at hlines
  exact ⟨ts, us, hts, hus, hlocations, hlines⟩

end Wordstack
