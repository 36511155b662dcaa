import Wordstack.Proofs.Source.Lexeme
import Wordstack.Source.Scanner

/-!
# Locations of tokens

- **Places** (`Place.after_line`, `Place.after_column`): line, column and position behind characters,
  by the line breaks and the units among them.
- **True locations** (`Location.Marks`, `Token.StandsIn`): a location says how many units stand before
  a text, in which line and where in that line.
- **Scanners** (`Scanner.Behind`): a scanner stands behind the characters of its input that it has
  read, whatever it reads next.
- **Tokens** (`tokens_stand_in_order`): all tokens that are read stand where they say, in order.
-/

namespace Wordstack

/-! ## Places -/

namespace Place

theorem after_append (p : Place) (xs ys : List Char) : p.after (xs ++ ys) = (p.after xs).after ys :=
  List.foldl_append ..

theorem after_cons (p : Place) (c : Char) (cs : List Char) :
    p.after (c :: cs) = (p.step c).after cs := rfl

theorem step_position (p : Place) (c : Char) :
    (p.step c).position = p.position + Text.width c := by
  unfold step
  split
  case isTrue h => obtain rfl := beq_iff_eq.mp h; rfl
  case isFalse => rfl

theorem after_position (p : Place) (cs : List Char) :
    (p.after cs).position = p.position + Text.units cs := by
  induction cs generalizing p with
  | nil => simp [after]
  | cons c cs ih => rw [after_cons, ih, step_position, Text.units_cons]; omega

theorem after_line (p : Place) (cs : List Char) :
    (p.after cs).line = p.line + cs.count '\n' := by
  induction cs generalizing p with
  | nil => simp [after]
  | cons c cs ih =>
    rw [after_cons, ih, List.count_cons, step]
    split
    case isTrue => simp only; omega
    case isFalse => simp

/-- On one line columns are counted like positions. -/
theorem after_column {cs : List Char} (h : '\n' ∉ cs) (p : Place) :
    (p.after cs).column = p.column + Text.units cs := by
  induction cs generalizing p with
  | nil => simp [after]
  | cons c cs ih =>
    rw [List.mem_cons, not_or] at h
    have hstep : (p.step c).column = p.column + Text.width c := by
      rw [step, if_neg (by simpa using Ne.symm h.1)]
    rw [after_cons, ih h.2, hstep, Text.units_cons]
    omega

/-- Behind a line break columns are counted from one again. -/
theorem after_column_break {line : List Char} (h : '\n' ∉ line) (p : Place) (cs : List Char) :
    (p.after (cs ++ '\n' :: line)).column = 1 + Text.units line := by
  rw [after_append, after_cons, after_column h]
  rfl

end Place

/-! ## True locations -/

/-- The location of `text` behind the characters `before` of an input that begins at `origin`. Its
column is counted from the latest line break, and on the first line from that of `origin`. -/
structure Location.Marks (l origin : Location) (before text : List Char) : Prop where
  source : l.source = origin.source
  startPos : l.startPos - origin.startPos = Text.units before
  endPos : l.endPos - l.startPos = Text.units text
  line : l.line = origin.line + before.count '\n'
  firstLine : '\n' ∉ before → l.column = origin.column + (l.startPos - origin.startPos)
  laterLine : ∀ lines line, before = lines ++ '\n' :: line → '\n' ∉ line →
    l.column = l.startPos - origin.startPos - Text.units lines

/-- The token stands in the input where its location says, and a word or a name of a definition is
spelled there as it is. -/
def Token.StandsIn (t : Token) (input : List Char) (origin : Location) : Prop :=
  ∃ before after, input = before ++ after ∧ t.location.Marks origin before t.text.toList ∧
    (t.kind = .word ∨ t.kind = .startDef ∨ t.kind = .startMemo → t.text.toList <+: after)

/-- The place where a text begins. -/
def Location.place (origin : Location) : Place :=
  ⟨origin.line, origin.column, origin.startPos⟩

namespace Scanner

/-- The scanner has read characters of its input, which begins at `origin`, and stands behind
them. -/
structure Behind (origin : Location) (read : List Char) (s : Scanner) : Prop where
  input : s.input.toList = read ++ s.rest
  source : s.source = origin.source
  place : s.place = origin.place.after read

variable {origin : Location} {read : List Char} {s : Scanner}

theorem start_behind (text : String) (origin : Location) :
    (start text origin).Behind origin [] :=
  ⟨String.toList_ofList, rfl, rfl⟩

theorem Behind.after (h : s.Behind origin read) {chars rest : List Char}
    (hr : s.rest = chars ++ rest) : (s.after chars rest).Behind origin (read ++ chars) := by
  refine ⟨?_, h.source, ?_⟩
  · rw [List.append_assoc]
    exact hr ▸ h.input
  · rw [Place.after_append, ← h.place]
    rfl

/-- What is located behind more characters than were read has a true location. -/
theorem Behind.marks (h : s.Behind origin read) (lead text : List Char) :
    (s.locate (s.place.after lead) text).Marks origin (read ++ lead) text := by
  have hp : s.place.after lead = origin.place.after (read ++ lead) := by
    rw [h.place, Place.after_append]
  rw [hp]
  generalize read ++ lead = before
  have hstart : (origin.place.after before).position = origin.startPos + Text.units before :=
    Place.after_position ..
  refine ⟨h.source, ?_, ?_, Place.after_line .., fun hb => ?_, fun lines line hb hline => ?_⟩
  · show (origin.place.after before).position - origin.startPos = _
    omega
  · show (origin.place.after before).position + (Text.units text : Int) -
      (origin.place.after before).position = _
    omega
  · show (origin.place.after before).column =
      origin.column + ((origin.place.after before).position - origin.startPos)
    rw [Place.after_column hb, hstart]
    show origin.column + _ = _
    omega
  · show (origin.place.after before).column =
      (origin.place.after before).position - origin.startPos - Text.units lines
    rw [hstart, hb, Place.after_column_break hline, Text.units_append, Text.units_cons,
      show Text.width '\n' = 1 from rfl]
    omega

theorem next_of_lex {l : Lexeme} {rest : List Char} (h : lex s.rest = .ok (l, rest)) :
    s.next = (.ok ⟨l.kind, String.ofList l.text, s.locate (s.place.after l.lead) l.text⟩,
      s.after l.chars rest) := by
  unfold next
  rw [h]

/-- How the next token of a scanner is read: it stands behind the lead of its lexeme, and the
scanner goes on behind all the characters of the lexeme. -/
theorem exists_of_next {t : Token} {s' : Scanner} (h : s.next = (.ok t, s')) :
    ∃ l rest, lex s.rest = .ok (l, rest) ∧
      t = ⟨l.kind, String.ofList l.text, s.locate (s.place.after l.lead) l.text⟩ ∧
      s' = s.after l.chars rest := by
  unfold next at h
  cases hl : lex s.rest with
  | ok r =>
    rw [hl] at h
    cases h
    exact ⟨r.1, r.2, rfl, rfl, rfl⟩
  | error f =>
    rw [hl] at h
    cases f <;> cases h

theorem exists_of_next_error {f : Fault} {s' : Scanner} (h : s.next = (.error f, s')) :
    ∃ chars rest, s.rest = chars ++ rest ∧ s' = s.after chars rest := by
  unfold next at h
  cases hl : lex s.rest with
  | ok r => rw [hl] at h; cases h
  | error f =>
    rw [hl] at h
    have hr := lex_error hl
    cases f <;> cases h
    · exact ⟨_, _, hr, rfl⟩
    · exact ⟨_, _, hr, rfl⟩

/-- A token that is read stands where it says: between the characters that were read before it and
those read with it. -/
theorem Behind.next (h : s.Behind origin read) {t : Token} {s' : Scanner}
    (hn : s.next = (.ok t, s')) :
    t.StandsIn s.input.toList origin ∧ ∃ more, s'.Behind origin (read ++ more) ∧
      Text.units read ≤ t.location.startPos - origin.startPos ∧
      t.location.endPos - origin.startPos ≤ Text.units (read ++ more) := by
  obtain ⟨l, rest, hl, rfl, rfl⟩ := exists_of_next hn
  obtain ⟨hchars, hformed⟩ := lex_ok hl
  have hmarks := h.marks l.lead l.text
  refine ⟨⟨read ++ l.lead, l.opener ++ l.text ++ l.closer ++ rest, ?_, ?_, ?_⟩,
    l.chars, h.after hchars, ?_, ?_⟩
  · rw [h.input, hchars]
    simp [Lexeme.chars]
  · simpa using hmarks
  · cases hformed <;> simp
  · have := hmarks.startPos
    simp only [Text.units_append] at this
    simp only
    omega
  · have := hmarks.startPos
    have := hmarks.endPos
    simp only [Text.units_append, Lexeme.chars] at *
    omega

/-- The tokens that the first `n` readings give; faults give none. -/
def returned : Nat → Scanner → List Token
  | 0, _ => []
  | n + 1, s =>
    match s.next with
    | (.ok t, s') => t :: returned n s'
    | (.error _, s') => returned n s'

theorem next_input (s : Scanner) : s.next.2.input = s.input := by
  unfold next
  split <;> rfl

/-- All tokens that are read stand where they say, behind what was read before and in order. -/
theorem Behind.returned (h : s.Behind origin read) (n : Nat) :
    (∀ t ∈ s.returned n, t.StandsIn s.input.toList origin ∧
      Text.units read ≤ t.location.startPos - origin.startPos) ∧
    (s.returned n).Pairwise fun t u => t.location.endPos ≤ u.location.startPos := by
  induction n generalizing s read with
  | zero => simp [Scanner.returned]
  | succ n ih =>
    rw [Scanner.returned]
    split
    case h_1 t s' hn =>
      obtain ⟨ht, more, hs', hstart, hend⟩ := h.next hn
      obtain ⟨hall, hpairs⟩ := ih hs'
      have hinput : s'.input = s.input := by rw [← s.next_input, hn]
      rw [hinput] at hall
      refine ⟨List.forall_mem_cons.mpr ⟨⟨ht, hstart⟩, fun u hu => ?_⟩,
        List.pairwise_cons.mpr ⟨fun u hu => ?_, hpairs⟩⟩
      · refine ⟨(hall u hu).1, ?_⟩
        have := (hall u hu).2
        rw [Text.units_append] at this
        omega
      · have := (hall u hu).2
        omega
    case h_2 f s' hn =>
      obtain ⟨chars, rest, hrest, rfl⟩ := exists_of_next_error hn
      obtain ⟨hall, hpairs⟩ := ih (h.after hrest)
      refine ⟨fun u hu => ⟨(hall u hu).1, ?_⟩, hpairs⟩
      have := (hall u hu).2
      rw [Text.units_append] at this
      omega

end Scanner

/-- However often a text is read on from, also behind faults and at its end: the location of a token
counts the units, the line breaks and the units of the latest line before it, words and names of
definitions stand there as they are, and spans are in order and do not overlap. -/
theorem tokens_stand_in_order (text : String) (origin : Location) (n : Nat) :
    (∀ t ∈ (Scanner.start text origin).returned n,
      t.StandsIn (Scanner.start text origin).input.toList origin) ∧
    ((Scanner.start text origin).returned n).Pairwise
      fun t u => t.location.endPos ≤ u.location.startPos := by
  obtain ⟨hall, hpairs⟩ := (Scanner.start_behind text origin).returned n
  exact ⟨fun t ht => (hall t ht).1, hpairs⟩

/-- A word behind a name that cannot be and a string of two lines, in a text that begins in the
middle of another one. -/
theorem tokens_stand_in_order_second_line :
    ∃ t ∈ (Scanner.start ": a'\nb' word" ⟨some "m", 7, 3, 40, 40⟩).returned 3,
      t.kind = .word ∧ t.location = ⟨some "m", 8, 4, 48, 52⟩ ∧
        t.StandsIn (Scanner.start ": a'\nb' word" ⟨some "m", 7, 3, 40, 40⟩).input.toList
          ⟨some "m", 7, 3, 40, 40⟩ := by
  have hreturned : ((Scanner.start ": a'\nb' word" ⟨some "m", 7, 3, 40, 40⟩).returned 3).any
      (fun t => t.kind = .word ∧ t.location = ⟨some "m", 8, 4, 48, 52⟩) = true := by decide +kernel
  obtain ⟨t, ht, hword⟩ := List.any_eq_true.mp hreturned
  obtain ⟨hkind, hlocation⟩ := of_decide_eq_true hword
  exact ⟨t, ht, hkind, hlocation, (tokens_stand_in_order _ _ 3).1 t ht⟩

end Wordstack
