import Wordstack.Proofs.Source.Entities
import Wordstack.Proofs.Source.Reading
import Wordstack.Source.Render

/-!
# Reading rendered tokens

- **Strings** (`Unquotable`, `lexes_renderString`): the quotes that are written hold every text
  except those that contain two of the three quotes tripled and end with the third, not being the
  first one.
- **Tokens** (`lexes_renderToken`): every token that is read can be read again from what is written
  for it.
- **Sources** (`render_reads_back_iff`): rendered tokens are read back if and only if none of them
  is a string that the quotes do not hold.
-/

namespace Wordstack

/-! ## Strings -/

/-- A quote occurs three times in a row. -/
def HasTripled (q : Char) (text : List Char) : Prop := [q, q, q] <:+: text

/-- The texts that no quotes of rendering hold: both other quotes occur tripled, and the text ends
with the second or the third quote. -/
def Unquotable (text : List Char) : Prop :=
  HasTripled '\x22' text ∧
    (HasTripled '^' text ∧ text.getLast? = some '\x27' ∨
      HasTripled '\x27' text ∧ text.getLast? = some '^')

instance (text : List Char) : Decidable (Unquotable text) :=
  inferInstanceAs (Decidable ([_, _, _] <:+: text ∧
    ([_, _, _] <:+: text ∧ _ ∨ [_, _, _] <:+: text ∧ _)))

theorem mem_of_hasTripled {q : Char} {text : List Char} (h : HasTripled q text) : q ∈ text :=
  h.subset (by simp)

theorem endsTripled_of_not_hasTripled {q : Char} {text : List Char} (h : ¬ HasTripled q text) :
    EndsTripled q text :=
  fun before after e => absurd ⟨before, after, by simp [e]⟩ h

theorem endsTripled_of_notMem {q : Char} {text : List Char} (h : q ∉ text) : EndsTripled q text :=
  endsTripled_of_not_hasTripled fun ht => h (mem_of_hasTripled ht)

/-- Where three quotes stand only at the end of a text, the text ends with a quote. -/
theorem EndsTripled.getLast? {q : Char} {text : List Char} (h : EndsTripled q text)
    (ht : HasTripled q text) : text.getLast? = some q := by
  obtain ⟨before, after, e⟩ := ht
  rw [List.append_assoc] at e
  induction after generalizing before with
  | nil => simp [← e]
  | cons a after ih =>
    obtain h' | h' := h before (a :: after) (by simp [← e])
    · simp at h'
    · obtain rfl : a = q := by simpa using h'
      exact ih (before ++ [a]) (by simp [← e])

theorem lexes_quoted_three {q : Char} {text : List Char} (hq : isQuote q = true)
    (h : EndsTripled q text) : Lexes (quoted 3 q text) .str text [] := by
  have e : quoted 3 q text = q :: q :: q :: (text ++ q :: q :: q :: []) := by
    simp [quoted, List.replicate]
  rw [e]
  exact .tripled hq h (by simp)

theorem lexes_quoted_one {q : Char} {text : List Char} (hq : isQuote q = true) (h : q ∉ text) :
    Lexes (quoted 1 q text) .str text [] := by
  have e : quoted 1 q text = q :: (text ++ q :: []) := by simp [quoted, List.replicate]
  rw [e]
  exact .quoted hq h fun _ => by simp

theorem isQuote_of_mem {q : Char} (h : q ∈ quoteMarks) : isQuote q = true := by
  simpa [isQuote] using h

/-- Rendering holds every text that is held by quotes of some kind and is not unquotable. -/
theorem lexes_renderString {text : List Char} {q : Char} (hq : isQuote q = true)
    (hends : EndsTripled q text) (h : ¬ Unquotable text) :
    Lexes (renderString text) .str text [] := by
  unfold renderString
  split
  case h_1 q' hfind =>
    have hq' := isQuote_of_mem (List.mem_of_find?_eq_some hfind)
    have hmem : q' ∉ text := by simpa using List.find?_some hfind
    split
    · exact lexes_quoted_three hq' (endsTripled_of_notMem hmem)
    · exact lexes_quoted_one hq' hmem
  case h_2 =>
    split
    case h_1 q' hfind =>
      have hq' := isQuote_of_mem (List.mem_of_find?_eq_some hfind)
      have hp := List.find?_some hfind
      rw [Bool.and_eq_true, Bool.not_eq_true', Bool.eq_false_iff, ne_eq, containsChars_iff] at hp
      exact lexes_quoted_three hq' (endsTripled_of_not_hasTripled hp.1)
    case h_2 hfind =>
      -- every quote is tripled or last, and the one that held the text is last in either case
      have hall : ∀ q, isQuote q = true → HasTripled q text ∨ text.getLast? = some q := by
        intro q hq
        have := List.find?_eq_none.mp hfind q (by simpa [isQuote] using hq)
        rw [Bool.and_eq_true, Bool.not_eq_true', Bool.eq_false_iff, ne_eq, containsChars_iff,
          bne_iff_ne] at this
        unfold HasTripled
        tauto
      have hlast : text.getLast? = some q := (hall q hq).elim hends.getLast? id
      have htripled : ∀ q', isQuote q' = true → q' ≠ q → HasTripled q' text := by
        intro q' hq' hne
        refine (hall q' hq').resolve_right fun h' => hne ?_
        simpa using h'.symm.trans hlast
      obtain rfl | rfl | rfl := isQuote_iff.mp hq
      · exact lexes_quoted_three (by decide) hends
      · exact absurd ⟨htripled _ (by decide) (by decide),
          .inl ⟨htripled _ (by decide) (by decide), hlast⟩⟩ h
      · exact absurd ⟨htripled _ (by decide) (by decide),
          .inr ⟨htripled _ (by decide) (by decide), hlast⟩⟩ h

/-- An unquotable text gets three of the first quote on each side. -/
theorem renderString_of_unquotable {text : List Char} (h : Unquotable text) :
    renderString text = quoted 3 '\x22' text := by
  have hall : ∀ q, isQuote q = true → HasTripled q text ∨ text.getLast? = some q := by
    intro q hq
    obtain ⟨h₁, ⟨h₂, h₃⟩ | ⟨h₂, h₃⟩⟩ := h <;>
      obtain rfl | rfl | rfl := isQuote_iff.mp hq <;> simp [*]
  have hfirst : (quoteMarks.find? fun q => !text.contains q) = none := by
    refine List.find?_eq_none.mpr fun q hq => ?_
    have hmem : q ∈ text :=
      (hall q (isQuote_of_mem hq)).elim mem_of_hasTripled List.mem_of_getLast?
    simpa using hmem
  have hsecond : (quoteMarks.find? fun q =>
      !Text.containsChars [q, q, q] text && text.getLast? != some q) = none := by
    refine List.find?_eq_none.mpr fun q hq => ?_
    obtain h' | h' := hall q (isQuote_of_mem hq)
    · simp [containsChars_iff.mpr h']
    · simp [h']
  rw [renderString, hfirst]
  dsimp only
  rw [hsecond]

/-- An unquotable text is not read back, whatever follows it. -/
theorem not_lexes_of_unquotable {text more rest : List Char} (h : Unquotable text) :
    ¬ Lexes (renderString text ++ more) .str text rest := by
  have htripled := h.1
  have hlast : text.getLast? ≠ some '\x22' := by
    obtain ⟨-, ⟨-, h'⟩ | ⟨-, h'⟩⟩ := h <;> simp [h']
  rw [renderString_of_unquotable h]
  have e : quoted 3 '\x22' text ++ more =
      '\x22' :: '\x22' :: '\x22' :: (text ++ '\x22' :: '\x22' :: '\x22' :: more) := by
    simp [quoted, List.replicate]
  rw [e]
  generalize text ++ '\x22' :: '\x22' :: '\x22' :: more = body
  intro hl
  generalize hcs : ('\x22' :: '\x22' :: '\x22' :: body : List Char) = cs at hl
  cases hl with
  | quoted hq hmem =>
    obtain rfl := (List.cons.inj hcs).1
    exact hmem (mem_of_hasTripled htripled)
  | tripled hq hends =>
    obtain rfl := (List.cons.inj hcs).1
    exact hlast (hends.getLast? htripled)

/-! ## Tokens -/

/-- What is written for a token that was read is read as that token, strings that the quotes do not
hold apart. Only the line break after a comment is left. -/
theorem lexes_renderToken {cs text rest : List Char} {k : TokenKind} (h : Lexes cs k text rest)
    (hk : k ≠ .eos) (hs : k = .str → ¬ Unquotable text) :
    ∃ rest', Lexes (renderToken k (String.ofList text)).toList k text rest' ∧
      (rest' = [] ∧ k ≠ .comment ∨ rest' = ['\n']) := by
  have stops : ∀ p, Stops p [] := by simp [Stops]
  have gap : ∀ c ∈ [' '], isGap c = true := List.forall_mem_singleton.mpr rfl
  cases h with
  | eos => exact absurd rfl hk
  | comment ht hr =>
    refine ⟨['\n'], ?_, .inr rfl⟩
    simpa [renderToken] using @Lexes.comment _ ['\n'] ht (by simp [Stops])
  | startDef hg hn hname hr =>
    refine ⟨[], ?_, .inl ⟨rfl, by simp⟩⟩
    simpa [renderToken] using Lexes.startDef gap hn hname (stops _)
  | startMemo hg hn hname hr =>
    refine ⟨[], ?_, .inl ⟨rfl, by simp⟩⟩
    simpa [renderToken] using Lexes.startMemo gap hn hname (stops _)
  | endDef => exact ⟨[], .endDef, .inl ⟨rfl, by simp⟩⟩
  | startArray => exact ⟨[], .startArray, .inl ⟨rfl, by simp⟩⟩
  | endArray => exact ⟨[], .endArray, .inl ⟨rfl, by simp⟩⟩
  | endModule => exact ⟨[], .endModule, .inl ⟨rfl, by simp⟩⟩
  | startModule hname ht =>
    refine ⟨[], ?_, .inl ⟨rfl, by simp⟩⟩
    simpa [renderToken, afterGap] using Lexes.startModule hname (stops _)
  | quoted hq hmem hr =>
    refine ⟨[], ?_, .inl ⟨rfl, by simp⟩⟩
    simpa [renderToken] using lexes_renderString hq (endsTripled_of_notMem hmem) (hs rfl)
  | tripled hq hends hr =>
    refine ⟨[], ?_, .inl ⟨rfl, by simp⟩⟩
    simpa [renderToken] using lexes_renderString hq hends (hs rfl)
  | dot ht => exact ⟨[], .dot (stops _), .inl ⟨rfl, by simp⟩⟩
  | dotSymbol hn htext ht =>
    refine ⟨[], ?_, .inl ⟨rfl, by simp⟩⟩
    simpa [renderToken, afterGap] using Lexes.dotSymbol hn htext (stops _)
  | word htext hq hd hc hm ht =>
    refine ⟨[], ?_, .inl ⟨rfl, by simp⟩⟩
    simpa [renderToken, afterGap] using Lexes.word htext hq hd hc hm (stops _)

/-- No lexeme begins with a gap. -/
theorem Lexes.stops_gap {cs text rest : List Char} {k : TokenKind} (h : Lexes cs k text rest) :
    Stops isGap cs := by
  have quote : ∀ q, isQuote q = true → isGap q = false := by
    intro q hq
    obtain rfl | rfl | rfl := isQuote_iff.mp hq <;> decide
  cases h with
  | eos => simp [Stops]
  | quoted hq | tripled hq => simpa [Stops] using quote _ hq
  | @word c _ _ htext =>
    have := htext c (by simp)
    simp_all [Stops, isBare]
  | _ => simp [Stops, isGap]

theorem Lexes.lexed_eq {cs text rest : List Char} {k : TokenKind} (h : Lexes cs k text rest) :
    lexed cs = some (k, text, rest) := by
  rwa [lexed_iff, dropWhile_of_stops h.stops_gap]

/-! ## Sources -/

/-- The characters that are written for tokens. -/
def rendered (ts : List (TokenKind × List Char)) : List Char :=
  (render (ts.map fun t => (t.1, String.ofList t.2))).toList

theorem rendered_single {k : TokenKind} (hk : k ≠ .eos) (text : List Char) :
    rendered [(k, text)] = (renderToken k (String.ofList text)).toList := by
  simp [rendered, render, hk, Text.join]

theorem rendered_cons {k k' : TokenKind} (hk : k ≠ .eos) (hk' : k' ≠ .eos)
    (text text' : List Char) (ts : List (TokenKind × List Char)) :
    rendered ((k, text) :: (k', text') :: ts) =
      (renderToken k (String.ofList text)).toList ++ ' ' :: rendered ((k', text') :: ts) := by
  simp [rendered, render, hk, hk', Text.join]

/-- Every token of a reading is of a kind other than the end. -/
theorem Reads.kind_ne {cs : List Char} {ts : List (TokenKind × List Char)} (h : Reads cs ts) :
    ∀ t ∈ ts, t.1 ≠ .eos := by
  induction h with
  | stop => simp
  | next _ hk _ ih => exact List.forall_mem_cons.mpr ⟨hk, ih⟩

/-- What is written for the first of some tokens, and what follows it. -/
theorem rendered_eq {k : TokenKind} (hk : k ≠ .eos) (text : List Char)
    {ts : List (TokenKind × List Char)} (hts : ∀ t ∈ ts, t.1 ≠ .eos) :
    ts = [] ∧ rendered ((k, text) :: ts) = (renderToken k (String.ofList text)).toList ∨
      rendered ((k, text) :: ts) =
        (renderToken k (String.ofList text)).toList ++ ' ' :: rendered ts := by
  cases ts with
  | nil => exact .inl ⟨rfl, rendered_single hk text⟩
  | cons t ts =>
    obtain ⟨k', text'⟩ := t
    have hk' : k' ≠ .eos := hts (k', text') (by simp)
    exact .inr (rendered_cons hk hk' text text' ts)

/-- A rendered token is read first, and the reading of what follows is that of the tokens after
it. -/
theorem reads_rendered_cons_iff {cs text rest : List Char} {k : TokenKind}
    {ts us : List (TokenKind × List Char)} (h : Lexes cs k text rest) (hk : k ≠ .eos)
    (hs : k = .str → ¬ Unquotable text) (hts : ∀ t ∈ ts, t.1 ≠ .eos) :
    Reads (rendered ((k, text) :: ts)) ((k, text) :: us) ↔ Reads (rendered ts) us := by
  obtain ⟨rest₁, hl, hrest₁⟩ := lexes_renderToken h hk hs
  have first : ∃ rest₂, lexed (rendered ((k, text) :: ts)) = some (k, text, rest₂) ∧
      (Reads rest₂ us ↔ Reads (rendered ts) us) := by
    obtain ⟨rfl, e⟩ | e := rendered_eq hk text hts
    · refine ⟨rest₁, by rw [e, hl.lexed_eq], ?_⟩
      obtain ⟨rfl, -⟩ | rfl := hrest₁
      · rfl
      · exact Reads.gap_iff (by decide)
    · have hcomment : k = .comment → rest₁ = [] → ' ' = '\n' := by
        rintro rfl rfl
        simp at hrest₁
      obtain ⟨rest₂, hrest₂, hr⟩ :=
        lexed_append (rendered ts) (hl.lexed_eq) hk (by decide) hcomment
      refine ⟨rest₂, by rw [e, hrest₂], ?_⟩
      obtain rfl | ⟨-, rfl⟩ := hr
      · obtain ⟨rfl, -⟩ | rfl := hrest₁
        · exact Reads.gap_iff (by decide)
        · exact (Reads.gap_iff (by decide)).trans (Reads.gap_iff (by decide))
      · rfl
  obtain ⟨rest₂, hlexed, hiff⟩ := first
  rw [← hiff]
  constructor
  · intro hr
    cases hr with
    | next h' _ tail =>
      obtain ⟨-, -, rfl⟩ := by simpa using hlexed.symm.trans h'
      exact tail
  · exact Reads.next hlexed hk

/-- The tokens of a text are read from what is written for them if and only if none of them is a
string that the quotes do not hold. -/
theorem Reads.rendered_iff {cs : List Char} {ts : List (TokenKind × List Char)}
    (h : Reads cs ts) :
    Reads (rendered ts) ts ↔ ∀ t ∈ ts, t.1 = .str → ¬ Unquotable t.2 := by
  induction h with
  | stop => exact iff_of_true Reads.nil (by simp)
  | @next cs k text rest ts hl hk tail ih =>
    rw [List.forall_mem_cons]
    by_cases hs : k = .str → ¬ Unquotable text
    · rw [reads_rendered_cons_iff (lexed_iff.mp hl) hk hs tail.kind_ne, ih]
      exact (and_iff_right hs).symm
    · refine iff_of_false (fun hr => ?_) fun hand => hs hand.1
      obtain ⟨rfl, hu⟩ := by simpa only [Classical.not_imp, not_not] using hs
      obtain ⟨more, e⟩ : ∃ more, rendered ((.str, text) :: ts) = renderString text ++ more := by
        obtain ⟨-, e⟩ | e := rendered_eq (by decide : TokenKind.str ≠ .eos) text tail.kind_ne
        · exact ⟨[], by simp [e, renderToken]⟩
        · exact ⟨' ' :: rendered ts, by simp [e, renderToken]⟩
      cases hr with
      | next h' _ _ =>
        have hstops : Stops isGap (renderString text ++ more) := by
          simp [renderString_of_unquotable hu, quoted, List.replicate, Stops, isGap]
        rw [e, lexed_iff, dropWhile_of_stops hstops] at h'
        exact not_lexes_of_unquotable hu h'

/-! ## Entities -/

/-- The text of a lexeme and what is left are parts of what was read. -/
theorem Lexes.parts {cs text rest : List Char} {k : TokenKind} (h : Lexes cs k text rest) :
    text <:+: cs ∧ rest <:+ cs := by
  have after : ∀ cs, afterGap cs <:+ cs := by
    intro cs
    cases cs with
    | nil => exact List.suffix_refl []
    | cons c cs =>
      rw [afterGap]
      split
      · exact List.suffix_cons c cs
      · exact List.suffix_refl _
  cases h with
  | eos => exact ⟨List.infix_refl [], List.suffix_refl []⟩
  | @comment text rest => exact ⟨⟨['#'], rest, by simp⟩, '#' :: text, by simp⟩
  | @startDef gap _ _ =>
    exact ⟨⟨':' :: gap, rest, by simp⟩, ':' :: (gap ++ text), by simp⟩
  | @startMemo gap _ _ =>
    exact ⟨⟨'@' :: ':' :: gap, rest, by simp⟩, '@' :: ':' :: (gap ++ text), by simp⟩
  | @endDef rest | @startArray rest | @endArray rest | @endModule rest =>
    exact ⟨⟨[], rest, by simp⟩, List.suffix_cons _ rest⟩
  | @startModule _ tail =>
    exact ⟨⟨['\x7b'], tail, by simp⟩, (after tail).trans ⟨'\x7b' :: text, by simp⟩⟩
  | @quoted q text rest => exact ⟨⟨[q], q :: rest, by simp⟩, q :: text ++ [q], by simp⟩
  | @tripled q text rest =>
    exact ⟨⟨[q, q, q], q :: q :: q :: rest, by simp⟩, q :: q :: q :: text ++ [q, q, q], by simp⟩
  | @dot tail => exact ⟨⟨[], tail, by simp⟩, (after tail).trans (List.suffix_cons _ tail)⟩
  | @dotSymbol text tail =>
    exact ⟨⟨['.'], tail, by simp⟩, (after tail).trans ⟨'.' :: text, by simp⟩⟩
  | @word c text tail => exact ⟨⟨[], tail, by simp⟩, (after tail).trans ⟨c :: text, rfl⟩⟩

theorem Reads.noEntity {cs : List Char} {ts : List (TokenKind × List Char)} (h : Reads cs ts)
    (hcs : NoEntity cs) : ∀ t ∈ ts, NoEntity t.2 := by
  induction h with
  | stop => simp
  | next h _ _ ih =>
    have hbody := hcs.of_part (List.dropWhile_suffix isGap).isInfix
    have hparts := (lexed_iff.mp h).parts
    exact List.forall_mem_cons.mpr
      ⟨hbody.of_part hparts.1, ih (hbody.of_part hparts.2.isInfix)⟩

theorem renderString_eq_quoted (text : List Char) :
    ∃ n q, isQuote q = true ∧ renderString text = quoted n q text := by
  unfold renderString
  split
  case h_1 q hfind => exact ⟨_, q, isQuote_of_mem (List.mem_of_find?_eq_some hfind), rfl⟩
  case h_2 =>
    split
    case h_1 q hfind => exact ⟨_, q, isQuote_of_mem (List.mem_of_find?_eq_some hfind), rfl⟩
    case h_2 => exact ⟨3, '\x22', by decide, rfl⟩

theorem NoEntity.quoted {q : Char} {text : List Char} (h : NoEntity text)
    (hq : isQuote q = true) (n : Nat) : NoEntity (quoted n q text) := by
  have hc : q ∉ entity 'l' 't' ++ entity 'g' 't' := by
    obtain rfl | rfl | rfl := isQuote_iff.mp hq <;> decide
  have hquotes : ∀ n, NoEntity (List.replicate n q) := by
    intro n
    induction n with
    | zero => exact .nil
    | succ n ih => exact ih.cons hc
  have hright : NoEntity (text ++ List.replicate n q) := by
    cases n with
    | zero => simpa using h
    | succ n => exact h.append_cons (hquotes n) hc
  rw [Wordstack.quoted, List.append_assoc]
  generalize text ++ List.replicate n q = right at hright
  induction n with
  | zero => exact hright
  | succ n ih => exact ih.cons hc

theorem noEntity_renderToken {k : TokenKind} {text : List Char} (h : NoEntity text) :
    NoEntity (renderToken k (String.ofList text)).toList := by
  cases k with
  | word => simpa [renderToken] using h
  | str =>
    obtain ⟨n, q, hq, e⟩ := renderString_eq_quoted text
    simpa [renderToken, e] using h.quoted hq n
  | comment =>
    simpa [renderToken] using (h.append_cons .nil (by decide : '\n' ∉ _)).cons (by decide)
  | startModule | dotSymbol => simpa [renderToken] using h.cons (by decide)
  | startDef => simpa [renderToken] using (h.cons (by decide : ' ' ∉ _)).cons (by decide)
  | startMemo =>
    simpa [renderToken] using
      ((h.cons (by decide : ' ' ∉ _)).cons (by decide : ':' ∉ _)).cons (by decide)
  | startArray | endArray | endModule | endDef | eos =>
    simp only [renderToken]
    exact ⟨by decide, by decide⟩

theorem noEntity_rendered {ts : List (TokenKind × List Char)} (hk : ∀ t ∈ ts, t.1 ≠ .eos)
    (h : ∀ t ∈ ts, NoEntity t.2) : NoEntity (rendered ts) := by
  induction ts with
  | nil => exact .nil
  | cons t ts ih =>
    obtain ⟨k, text⟩ := t
    rw [List.forall_mem_cons] at hk h
    obtain ⟨-, e⟩ | e := rendered_eq hk.1 text hk.2
    · rw [e]
      exact noEntity_renderToken h.1
    · rw [e]
      exact (noEntity_renderToken h.1).append_cons (ih hk.2 h.2) (by decide)

/-! ## Sources -/

/-- The kind and the text of a token, as they are written. -/
def Token.pair (t : Token) : TokenKind × String := (t.kind, t.text)

theorem map_lexeme_eq_iff {ts us : List Token} :
    ts.map Token.lexeme = us.map Token.lexeme ↔ ts.map Token.pair = us.map Token.pair := by
  have hinj : Function.Injective fun p : TokenKind × String => (p.1, p.2.toList) := by
    rintro ⟨k, s⟩ ⟨k', s'⟩ h
    simpa [String.toList_inj] using h
  have e : ∀ ts : List Token,
      ts.map Token.lexeme = (ts.map Token.pair).map fun p => (p.1, p.2.toList) := by
    intro ts
    simp [Token.lexeme, Token.pair]
  rw [e, e, hinj.list_map.eq_iff]

/-- The tokens of a source are read back from their rendering, in kinds and texts, if and only if
none of them is a string that the quotes of rendering do not hold. -/
theorem render_reads_back_iff {source : String} {origin origin' : Location} {tokens : List Token}
    (h : tokenize source origin = .ok tokens) :
    (∃ again, tokenize (render (tokens.map Token.pair)) origin' = .ok again ∧
        again.map Token.pair = tokens.map Token.pair) ↔
      ∀ t ∈ tokens, t.kind = .str → ¬ Unquotable t.text.toList := by
  have hreads := tokenize_iff_reads.mp ⟨tokens, h, rfl⟩
  have hrender : (render (tokens.map Token.pair)).toList = rendered (tokens.map Token.lexeme) := by
    simp only [rendered, Token.lexeme, List.map_map, Function.comp_def, String.ofList_toList]
    rfl
  have hentity := noEntity_rendered hreads.kind_ne
    (hreads.noEntity (noEntity_unescape source.toList))
  have hback := hreads.rendered_iff
  rw [← hentity.unescape_eq, ← hrender, ← @tokenize_iff_reads _ origin'] at hback
  simp only [map_lexeme_eq_iff] at hback
  rw [hback]
  simp [Token.lexeme]

/-- A string that ends with three of the first quote is read back, the other ones being tripled. -/
theorem render_reads_back_first_quote :
    ∃ tokens again, tokenize "\"\"\"'''^^^\n\"\"\"\"\"\" x # c" .origin = .ok tokens ∧
      tokens.map Token.pair = [(.str, "'''^^^\n\"\"\""), (.word, "x"), (.comment, " c")] ∧
      tokenize (render (tokens.map Token.pair)) .origin = .ok again ∧
      again.map Token.pair = tokens.map Token.pair := by
  have hsource : ((tokenize "\"\"\"'''^^^\n\"\"\"\"\"\" x # c" .origin).toOption.map
      (·.map Token.pair)) = some [(.str, "'''^^^\n\"\"\""), (.word, "x"), (.comment, " c")] := by
    decide +kernel
  obtain ⟨tokens, htokens, hpairs⟩ := Option.map_eq_some_iff.mp hsource
  replace htokens := eq_ok_of_toOption_eq_some htokens
  have hquotable : ∀ p ∈ tokens.map Token.pair, p.1 = .str → ¬ Unquotable p.2.toList := by
    rw [hpairs]
    decide +kernel
  obtain ⟨again, hagain, hsame⟩ := (@render_reads_back_iff _ _ .origin _ htokens).mpr
    fun t ht => hquotable t.pair (List.mem_map_of_mem ht)
  exact ⟨tokens, again, htokens, hpairs, hagain, hsame⟩

/-- A string between quotes of the second kind that ends with one of them, the others being
tripled, is not read back. -/
theorem render_may_lose_strings :
    ¬ ∀ {source : String} {tokens : List Token}, tokenize source .origin = .ok tokens →
      ∃ again, tokenize (render (tokens.map Token.pair)) .origin = .ok again ∧
        again.map Token.pair = tokens.map Token.pair := by
  intro hall
  have hsource : ((tokenize "'''\"\"\"^^^''''" .origin).toOption.map (·.map Token.pair)) =
      some [(.str, "\"\"\"^^^'")] := by decide +kernel
  have hagain : (tokenize (render [(.str, "\"\"\"^^^'")]) .origin).toOption = none := by
    decide +kernel
  obtain ⟨tokens, htokens, hpairs⟩ := Option.map_eq_some_iff.mp hsource
  obtain ⟨again, h, -⟩ := hall (eq_ok_of_toOption_eq_some htokens)
  rw [hpairs] at h
  rw [h] at hagain
  simp [Except.toOption] at hagain

end Wordstack
