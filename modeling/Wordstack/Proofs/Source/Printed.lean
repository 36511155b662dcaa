import Wordstack.Proofs.Source.Rendering
import Wordstack.Proofs.Text.Spans
import Wordstack.Source.Literal
import Wordstack.Value.Display

/-!
# Reading printed values

- **Plain texts** (`Text.IsPlain`): texts that stand between double quotes as they are, and that a
  source leaves as they are.
- **Values with a source form** (`Val.Writable`): integers, booleans, plain texts and arrays of such
  values.
- **Tokens** (`Val.lexemes`, `Val.Writable.reads`): what the display form of such a value is read as,
  whatever follows that does not go on with its last word.
- **Literals** (`Literal.bool_display`, `Literal.int_toString`): the readers of booleans and integers
  read these back, and neither is taken for the other (`Literal.bool_toString`).
-/

namespace Wordstack

/-! ## Values -/

/-- A text without quotes, backslashes and control characters, and without entities. -/
structure Text.IsPlain (s : String) : Prop where
  unescaped : ∀ c ∈ s.toList, c ≠ '\x22' ∧ c ≠ '\\' ∧ 0x20 ≤ c.toNat
  noEntity : NoEntity s.toList

/-- Values whose display form is source text for them. -/
inductive Val.Writable : Val → Prop
  | int (n : Int) : Writable (.int n)
  | bool (b : Bool) : Writable (.bool b)
  | str {s : String} (h : Text.IsPlain s) : Writable (.str s)
  | array {items : List Val} (h : ∀ v ∈ items, Writable v) : Writable (.array items)

namespace Text

theorem quoteChar_of_unescaped {c : Char} (h : c ≠ '\x22' ∧ c ≠ '\\' ∧ 0x20 ≤ c.toNat) :
    quoteChar c = [c] := by
  obtain ⟨hq, hb, hn⟩ := h
  have hcontrol : ∀ d : Char, d.toNat < 0x20 → c ≠ d := by
    rintro d hd rfl
    omega
  unfold quoteChar
  simp [hq, hb, hcontrol, Nat.not_lt.mpr hn]

theorem IsPlain.toList_quote {s : String} (h : IsPlain s) :
    (quote s).toList = '\x22' :: (s.toList ++ ['\x22']) := by
  have hchars : s.toList.flatMap quoteChar = s.toList := by
    rw [List.flatMap_congr fun c hc => quoteChar_of_unescaped (h.unescaped c hc)]
    simp
  rw [quote, String.toList_ofList, quoteChars, hchars]

/-- The characters of joined parts, one part after the other. -/
theorem toList_join_cons (sep part next : String) (parts : List String) :
    (join sep (part :: next :: parts)).toList =
      part.toList ++ (sep.toList ++ (join sep (next :: parts)).toList) := by
  simp [join]

end Text

namespace Val

mutual
/-- The kinds and texts of the tokens that the display form of a value is read as. -/
def lexemes : Val → List (TokenKind × List Char)
  | str s => [(.str, s.toList)]
  | array items => (.startArray, ['[']) :: (itemLexemes items ++ [(.endArray, [']'])])
  | v => [(.word, v.display.toList)]

/-- The tokens of items. -/
def itemLexemes : List Val → List (TokenKind × List Char)
  | [] => []
  | v :: vs => lexemes v ++ itemLexemes vs
end

theorem toList_display_array (items : List Val) :
    (array items).display.toList =
      '[' :: ((Text.join " " (displayItems items)).toList ++ [']']) := by
  simp [display]

end Val

/-! ## Words -/

/-- Letters, digits and the minus sign: the characters of booleans and integers. -/
def IsTerm (cs : List Char) : Prop := cs ≠ [] ∧ ∀ c ∈ cs, c.isAlphanum = true ∨ c = '-'

namespace IsTerm

variable {cs : List Char}

/-- No character of a term is one with another meaning. -/
theorem not_mem (h : IsTerm cs) {d : Char} (hd : d.isAlphanum = false) (hm : d ≠ '-') : d ∉ cs := by
  intro hmem
  rcases h.2 d hmem with ha | rfl
  · rw [hd] at ha
    cases ha
  · exact hm rfl

theorem noEntity (h : IsTerm cs) : NoEntity cs := by
  have hamp : '&' ∉ cs := h.not_mem (by decide) (by decide)
  exact ⟨fun hin => hamp (hin.subset (by decide)), fun hin => hamp (hin.subset (by decide))⟩

theorem isBare (h : IsTerm cs) : ∀ c ∈ cs, isBare c = true := by
  have hall : [' ', '\t', '\n', '\r', '(', ')', ',', '[', ']', '\x7b', '\x7d', ';', '#'].all
      (fun d => !d.isAlphanum && d != '-') = true := by decide
  intro c hc
  have hnot : ∀ d ∈ [' ', '\t', '\n', '\r', '(', ')', ',', '[', ']', '\x7b', '\x7d', ';', '#'],
      c ≠ d := by
    rintro d hd rfl
    have hother : c.isAlphanum = false ∧ c ≠ '-' := by simpa using List.all_eq_true.mp hall c hd
    exact h.not_mem hother.1 hother.2 hc
  simp only [List.forall_mem_cons] at hnot
  simp [Wordstack.isBare, isGap, isTerminator, isNameBracket, hnot]

/-- A term is read as one word, up to what ends a word. -/
theorem lexes (h : IsTerm cs) {more : List Char} (hm : Stops Wordstack.isBare more) :
    Lexes (cs ++ more) .word cs (afterGap more) := by
  obtain ⟨c, text, rfl⟩ := List.exists_cons_of_ne_nil h.1
  have hne : ∀ d, d.isAlphanum = false → d ≠ '-' → c ≠ d := fun d hd hm e =>
    h.not_mem hd hm (e ▸ List.mem_cons_self)
  refine .word h.isBare ?_ (hne _ (by decide) (by decide)) (hne _ (by decide) (by decide))
    (fun e => absurd e (hne _ (by decide) (by decide))) hm
  rw [Bool.eq_false_iff, Ne, isQuote_iff]
  rintro (rfl | rfl | rfl)
  · exact hne _ (by decide) (by decide) rfl
  · exact hne _ (by decide) (by decide) rfl
  · exact hne _ (by decide) (by decide) rfl

end IsTerm

theorem isTerm_display_bool (b : Bool) : IsTerm (Val.bool b).display.toList := by
  cases b with
  | true => exact ⟨by decide, by simp [Val.display]⟩
  | false => exact ⟨by decide, by simp [Val.display]⟩

theorem isTerm_toDigits (n : Nat) : IsTerm (Nat.toDigits 10 n) := by
  refine ⟨Nat.toDigits_ne_nil, fun c hc => .inl ?_⟩
  have hdigit := Nat.isDigit_of_mem_toDigits (b := 10) (by decide) (by decide) hc
  simp [Char.isAlphanum, hdigit]

theorem isTerm_display_int (n : Int) : IsTerm (Val.int n).display.toList := by
  have hdigits := isTerm_toDigits n.natAbs
  rw [Val.display, Text.toList_toString]
  split
  · exact ⟨List.cons_ne_nil _ _, List.forall_mem_cons.mpr ⟨.inr rfl, hdigits.2⟩⟩
  · exact hdigits

/-! ## Reading -/

/-- A gap character that is taken with a word makes no difference to what is read after it. -/
theorem Reads.afterGap {cs : List Char} {ts : List (TokenKind × List Char)} (h : Reads cs ts) :
    Reads (afterGap cs) ts := by
  cases cs with
  | nil => exact h
  | cons c cs =>
    rw [Wordstack.afterGap]
    split
    case isTrue hc => exact (gap_iff hc).mp h
    case isFalse => exact h

/-- A term is read first, and then what follows it. -/
theorem IsTerm.reads {cs more : List Char} {ts : List (TokenKind × List Char)} (h : IsTerm cs)
    (hm : Stops Wordstack.isBare more) (hr : Reads more ts) :
    Reads (cs ++ more) ((.word, cs) :: ts) :=
  .next (h.lexes hm).lexed_eq nofun hr.afterGap

/-- A quoted text is read first, and then what follows it. A quote is no end of a word, so none
follows it. -/
theorem Text.IsPlain.reads {s : String} {more : List Char} {ts : List (TokenKind × List Char)}
    (h : IsPlain s) (hm : Stops Wordstack.isBare more) (hr : Reads more ts) :
    Reads ((quote s).toList ++ more) ((.str, s.toList) :: ts) := by
  have hquote : '\x22' ∉ s.toList := fun hc => (h.unescaped _ hc).1 rfl
  have hmore : more.head? ≠ some '\x22' := fun he => absurd (hm _ he) (by decide)
  rw [h.toList_quote, List.cons_append, List.append_assoc]
  exact .next (Lexes.quoted (by decide) hquote fun _ => hmore).lexed_eq nofun hr

namespace Val

/-- What a value is read as when something follows that does not go on with its last word. -/
def ReadsBack (v : Val) : Prop :=
  ∀ {more : List Char} {ts : List (TokenKind × List Char)}, Stops isBare more → Reads more ts →
    Reads (v.display.toList ++ more) (v.lexemes ++ ts)

/-- The items of an array are read one after the other, up to its end. -/
theorem reads_items {items : List Val} (h : ∀ v ∈ items, v.ReadsBack) {more : List Char}
    {ts : List (TokenKind × List Char)} (hr : Reads (']' :: more) ts) :
    Reads ((Text.join " " (displayItems items)).toList ++ ']' :: more) (itemLexemes items ++ ts) := by
  induction items with
  | nil => exact hr
  | cons v vs ih =>
    obtain ⟨hv, hvs⟩ := List.forall_mem_cons.mp h
    rw [itemLexemes, List.append_assoc]
    cases vs with
    | nil => exact hv (by simp [Stops, isBare, isTerminator, isNameBracket]) hr
    | cons w vs =>
      rw [displayItems, displayItems, Text.toList_join_cons, List.append_assoc, List.append_assoc]
      exact hv (by simp [Stops, isBare, isGap]) ((Reads.gap_iff (by decide)).mpr (ih hvs))

/-- The display form of a value with a source form is read as the tokens of the value. -/
theorem Writable.reads {v : Val} (h : v.Writable) : v.ReadsBack := by
  induction h with
  | int n => exact (isTerm_display_int n).reads
  | bool b => exact (isTerm_display_bool b).reads
  | str h => exact h.reads
  | @array items _ ih =>
    intro more ts _ hr
    have hclose : Reads (']' :: more) ((.endArray, [']']) :: ts) :=
      .next Lexes.endArray.lexed_eq nofun hr
    have hitems := reads_items ih hclose
    rw [toList_display_array, lexemes]
    simp only [List.cons_append, List.append_assoc, List.nil_append]
    exact .next Lexes.startArray.lexed_eq nofun hitems

theorem noEntity_items {items : List Val} (h : ∀ v ∈ items, NoEntity v.display.toList) :
    NoEntity (Text.join " " (displayItems items)).toList := by
  induction items with
  | nil => exact .nil
  | cons v vs ih =>
    obtain ⟨hv, hvs⟩ := List.forall_mem_cons.mp h
    cases vs with
    | nil => exact hv
    | cons w vs =>
      rw [displayItems, displayItems, Text.toList_join_cons]
      exact hv.append_cons (ih hvs) (by decide)

/-- No entity comes up in the display form of a value with a source form, so that the form is left
as it is when it is read. -/
theorem Writable.noEntity {v : Val} (h : v.Writable) : NoEntity v.display.toList := by
  induction h with
  | int n => exact (isTerm_display_int n).noEntity
  | bool b => exact (isTerm_display_bool b).noEntity
  | str h =>
    rw [display, h.toList_quote]
    exact (h.noEntity.append_cons .nil (by decide)).cons (by decide)
  | array _ ih =>
    rw [toList_display_array]
    exact ((noEntity_items ih).append_cons .nil (by decide)).cons (by decide)

/-- The tokens of a display form. -/
theorem Writable.tokenize {v : Val} (h : v.Writable) (origin : Location) :
    ∃ ts, tokenize v.display origin = .ok ts ∧ ts.map Token.lexeme = v.lexemes := by
  refine tokenize_iff_reads.mpr ?_
  have hreads := h.reads (by simp [Stops] : Stops isBare []) .nil
  rwa [List.append_nil, List.append_nil, ← h.noEntity.unescape_eq] at hreads

end Val

/-! ## Literals -/

namespace Literal

theorem isCanonicalNat_toDigits (n : Nat) : isCanonicalNat (Nat.toDigits 10 n) = true := by
  have hzero : (Nat.toDigits 10 n).head? = some '0' → Nat.toDigits 10 n = ['0'] := by
    intro h
    rw [Text.eq_zero_of_head?_toDigits h]
    rfl
  rw [isCanonicalNat, Text.allDigits_toDigits, Bool.true_and, Bool.or_eq_true, beq_iff_eq, bne_iff_ne]
  exact Classical.or_iff_not_imp_right.mpr fun h => hzero (Classical.not_not.mp h)

theorem int_toString (n : Int) : int (toString n) = some (.int n) := by
  have hvalue := Text.toInt_toString n
  unfold int
  simp only [Text.toList_toString] at hvalue ⊢
  split at hvalue
  case isTrue h =>
    have hne : '-' :: Nat.toDigits 10 n.natAbs ≠ ['-', '0'] := by
      intro e
      have hzero := Text.eq_zero_of_head?_toDigits (n := n.natAbs) (by rw [(List.cons.inj e).2]; rfl)
      omega
    simp [h, isCanonicalNat_toDigits, hne, hvalue]
  case isFalse h =>
    have hminus := Text.head?_toDigits_ne n.natAbs
    have hne : Nat.toDigits 10 n.natAbs ≠ ['-', '0'] := fun e => hminus (by rw [e]; rfl)
    simp [h, hminus, isCanonicalNat_toDigits, hne, hvalue]

end Literal

end Wordstack
