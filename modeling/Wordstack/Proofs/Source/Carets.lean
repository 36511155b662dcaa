import Wordstack.Fault.Describe
import Wordstack.Proofs.Source.Entities
import Wordstack.Proofs.Source.Lines
import Wordstack.Proofs.Source.Locations

/-!
# Carets under words

A fault is shown in the text as it was given, and located in that text with its entities replaced.

- **Parts of replaced texts** (`exists_of_unescape_append`): what a replaced text is cut into comes
  from parts of the text itself.
- **Widths** (`units_unescape_eq_iff`): replacing takes units away wherever there is an entity.
- **Lines** (`join_take_splitAt`, `count_unescape`): the lines up to a place, which are the same in
  number whether or not entities are replaced.
- **Carets** (`highlight_word`): how many blanks and carets stand under the line of a word.
-/

namespace Wordstack

/-! ## Parts of replaced texts -/

section Entities

variable {a b out : Char}

theorem replaceEntity_entity_append (a b out : Char) (cs : List Char) :
    replaceEntity a b out (entity a b ++ cs) = out :: replaceEntity a b out cs := by
  simp [entity, replaceEntity]

theorem length_le_of_entity {c : Char} {cs rest : List Char} (h : c :: cs = entity a b ++ rest) :
    rest.length ≤ cs.length := by
  have := congrArg List.length h
  simp only [entity, List.length_cons, List.length_append, List.length_nil] at this
  omega

/-- No cut goes through a replaced entity. -/
theorem exists_of_replaceEntity_append {xs ys cs : List Char}
    (h : replaceEntity a b out cs = xs ++ ys) :
    ∃ us vs, cs = us ++ vs ∧ replaceEntity a b out us = xs ∧ replaceEntity a b out vs = ys := by
  induction xs generalizing cs with
  | nil => exact ⟨[], cs, rfl, rfl, h⟩
  | cons x xs ih =>
    cases cs with
    | nil => simp [replaceEntity] at h
    | cons c cs =>
      obtain ⟨rest, e, er⟩ | ⟨hn, er⟩ := replaceEntity_cases a b out c cs
      · rw [er, List.cons_append, List.cons.injEq] at h
        obtain ⟨rfl, h⟩ := h
        obtain ⟨us, vs, rfl, rfl, hvs⟩ := ih h
        refine ⟨entity a b ++ us, vs, by rw [e, List.append_assoc], ?_, hvs⟩
        rw [replaceEntity_entity_append]
      · rw [er, List.cons_append, List.cons.injEq] at h
        obtain ⟨rfl, h⟩ := h
        obtain ⟨us, vs, rfl, rfl, hvs⟩ := ih h
        refine ⟨c :: us, vs, rfl, ?_, hvs⟩
        obtain ⟨rest, e, -⟩ | ⟨-, er⟩ := replaceEntity_cases a b out c us
        · exact absurd ⟨rest ++ vs, by rw [← List.append_assoc, ← e, List.cons_append]⟩ hn
        · exact er

theorem exists_of_unescape_append {xs ys cs : List Char} (h : unescape cs = xs ++ ys) :
    ∃ us vs, cs = us ++ vs ∧ unescape us = xs ∧ unescape vs = ys := by
  obtain ⟨us', vs', he, hx, hy⟩ := exists_of_replaceEntity_append h
  obtain ⟨us, vs, rfl, rfl, rfl⟩ := exists_of_replaceEntity_append he
  exact ⟨us, vs, rfl, hx, hy⟩

/-! ## Widths -/

theorem Text.width_pos (c : Char) : 0 < Text.width c := by
  unfold Text.width
  split <;> omega

/-- A character that is one unit wide takes the place of four or more. -/
theorem units_replaceEntity (hw : Text.width out = 1) : ∀ cs : List Char,
    Text.units (replaceEntity a b out cs) ≤ Text.units cs ∧
      (entity a b <:+: cs → Text.units (replaceEntity a b out cs) < Text.units cs)
  | [] => ⟨Nat.le_refl _, fun h => by simp [entity] at h⟩
  | c :: cs => by
    obtain ⟨rest, e, er⟩ | ⟨hn, er⟩ := replaceEntity_cases a b out c cs
    · have hlen := length_le_of_entity e
      have hrest := (units_replaceEntity hw rest).1
      have hlt : Text.units (replaceEntity a b out (c :: cs)) < Text.units (c :: cs) := by
        have ha := Text.width_pos a
        have hb := Text.width_pos b
        have hamp : Text.width '&' = 1 := rfl
        rw [er, e, Text.units_cons, Text.units_append, hw]
        simp only [entity, Text.units_cons, Text.units_nil]
        omega
      exact ⟨Nat.le_of_lt hlt, fun _ => hlt⟩
    · obtain ⟨hle, hlt⟩ := units_replaceEntity hw cs
      rw [er, Text.units_cons, Text.units_cons]
      refine ⟨by omega, fun h => ?_⟩
      have := hlt ((List.infix_cons_iff.mp h).resolve_left hn)
      omega
termination_by cs => cs.length

/-- A replaced text is as wide as the text exactly if there was nothing to replace. -/
theorem units_unescape_eq_iff (cs : List Char) :
    Text.units (unescape cs) = Text.units cs ↔ NoEntity cs := by
  refine ⟨fun h => ?_, fun h => by rw [h.unescape_eq]⟩
  have hgt := @units_replaceEntity 'g' 't' '>' rfl (replaceEntity 'l' 't' '<' cs)
  have hlt := @units_replaceEntity 'l' 't' '<' rfl cs
  unfold unescape at h
  have hno : ¬ entity 'l' 't' <:+: cs := by
    intro hmem
    have := hlt.2 hmem
    omega
  refine ⟨hno, fun hmem => ?_⟩
  rw [replaceEntity_of_not_occurs hno] at hgt h
  have := hgt.2 hmem
  omega

/-! ## Lines -/

theorem count_replaceEntity {c : Char} (hc : c ∉ entity a b) (ho : out ≠ c) :
    ∀ cs : List Char, (replaceEntity a b out cs).count c = cs.count c
  | [] => rfl
  | d :: cs => by
    obtain ⟨rest, e, er⟩ | ⟨-, er⟩ := replaceEntity_cases a b out d cs
    · have hlen := length_le_of_entity e
      rw [er, e, List.count_append, List.count_eq_zero_of_not_mem hc, List.count_cons_of_ne ho,
        count_replaceEntity hc ho rest, Nat.zero_add]
    · rw [er, List.count_cons, List.count_cons, count_replaceEntity hc ho cs]
termination_by cs => cs.length

/-- There are as many line breaks in a replaced text. -/
theorem count_unescape (cs : List Char) : (unescape cs).count '\n' = cs.count '\n' := by
  unfold unescape
  rw [count_replaceEntity (by decide) (by decide), count_replaceEntity (by decide) (by decide)]

end Entities

theorem exists_splitCharsAt (sep : Char) (cs : List Char) :
    ∃ parts, Text.splitCharsAt sep cs = cs.takeWhile (· != sep) :: parts := by
  induction cs with
  | nil => exact ⟨[], rfl⟩
  | cons c cs ih =>
    obtain ⟨parts, hparts⟩ := ih
    rw [Text.splitCharsAt, hparts]
    by_cases hc : c = sep
    · exact ⟨cs.takeWhile (· != sep) :: parts, by simp [hc]⟩
    · exact ⟨parts, by simp [hc]⟩

theorem join_ofList_cons (sep : String) (c : Char) (part : List Char) (parts : List String) :
    Text.join sep (String.ofList (c :: part) :: parts) =
      String.singleton c ++ Text.join sep (String.ofList part :: parts) := by
  have hcons : String.ofList (c :: part) = String.singleton c ++ String.ofList part := by
    apply String.toList_inj.mp
    simp
  cases parts with
  | nil => exact hcons
  | cons p parts => simp only [Text.join, hcons, String.append_assoc]

/-- The lines up to the one in which a text stops, joined again, are the text and the rest of its last
line. -/
theorem join_take_splitAt (xs ys : List Char) :
    Text.join "\n" ((Text.splitAt '\n' (String.ofList (xs ++ ys))).take (xs.count '\n' + 1)) =
      String.ofList (xs ++ ys.takeWhile (· != '\n')) := by
  unfold Text.splitAt
  rw [String.toList_ofList]
  induction xs with
  | nil =>
    obtain ⟨parts, hparts⟩ := exists_splitCharsAt '\n' ys
    rw [List.nil_append, hparts]
    rfl
  | cons x xs ih =>
    obtain ⟨parts, hparts⟩ := exists_splitCharsAt '\n' (xs ++ ys)
    rw [List.cons_append, Text.splitCharsAt, hparts]
    rw [hparts, List.map_cons, List.take_succ_cons] at ih
    have hcons : String.ofList (x :: (xs ++ ys.takeWhile (· != '\n'))) =
        String.singleton x ++ String.ofList (xs ++ ys.takeWhile (· != '\n')) := by
      apply String.toList_inj.mp
      simp
    by_cases hx : x = '\n'
    · subst hx
      have htake : (List.count '\n' ('\n' :: xs)) = xs.count '\n' + 1 := List.count_cons_self
      rw [htake, List.cons_append, hcons, ← ih]
      simp [Text.join]
    · have htake : (List.count '\n' (x :: xs)) = xs.count '\n' := List.count_cons_of_ne hx
      rw [htake, List.cons_append, hcons, ← ih, ← join_ofList_cons]
      simp [hx]

/-- Every text has a last line, behind the line breaks that come before it. -/
theorem exists_lastLine (cs : List Char) : ∃ lines line, cs = lines ++ line ∧ '\n' ∉ line ∧
    (lines = [] ∨ ∃ before, lines = before ++ ['\n']) := by
  induction cs with
  | nil => exact ⟨[], [], rfl, List.not_mem_nil, .inl rfl⟩
  | cons c cs ih =>
    obtain ⟨lines, line, rfl, hline, rfl | ⟨before, rfl⟩⟩ := ih
    · by_cases hc : c = '\n'
      · exact ⟨[c], line, rfl, hline, .inr ⟨[], by rw [hc]; rfl⟩⟩
      · exact ⟨[], c :: line, rfl, by simp [Ne.symm hc, hline], .inl rfl⟩
    · exact ⟨c :: (before ++ ['\n']), line, rfl, hline, .inr ⟨c :: before, rfl⟩⟩

/-! ## Words in a source -/

/-- Where the text of a token is in the source that it was read from: behind some lines and the start
of a line, and before the rest of that line. Its location is that of the text once entities are
replaced. -/
structure Token.Spelled (t : Token) (source lines line spelled rest : List Char) : Prop where
  chars : ∃ after, source = lines ++ line ++ spelled ++ (rest ++ after) ∧ Stops (· != '\n') after
  breaks : lines = [] ∨ ∃ before, lines = before ++ ['\n']
  sameLine : '\n' ∉ line ++ spelled ++ rest
  text : unescape spelled = t.text.toList
  marks : t.location.Marks .origin (unescape (lines ++ line)) t.text.toList

namespace Scanner

/-- A token that is read between others is read by a scanner of the same text. -/
theorem Scans.exists_next {origin : Location} {before after : List Token} {t : Token}
    {stop : Except Fault Token} {s : Scanner} {read : List Char}
    (h : s.Scans (before ++ t :: after) stop) (hb : s.Behind origin read) :
    ∃ (s₁ s₂ : Scanner) (read₁ : List Char), s₁.Behind origin read₁ ∧ s₁.input = s.input ∧ s₁.next = (.ok t, s₂) := by
  induction before generalizing s read with
  | nil =>
    cases h with
    | next hn => exact ⟨s, _, read, hb, rfl, hn⟩
  | cons u before ih =>
    rw [List.cons_append] at h
    cases h with
    | @next _ s' _ _ _ hn _ tail =>
      obtain ⟨-, more, hs', -⟩ := hb.next hn
      obtain ⟨s₁, s₂, read₁, hb₁, hinput, hn₁⟩ := ih tail hs'
      have hkeep : s'.input = s.input := by rw [← s.next_input, hn]
      exact ⟨s₁, s₂, read₁, hb₁, hinput.trans hkeep, hn₁⟩

/-- The text of a word is not empty, and goes over no line. -/
theorem text_of_next_word {s s' : Scanner} {t : Token} (h : s.next = (.ok t, s'))
    (hk : t.kind = .word) : t.text.toList ≠ [] ∧ '\n' ∉ t.text.toList := by
  obtain ⟨l, rest, hl, rfl, -⟩ := exists_of_next h
  have hlexes := lexed_iff.mp (lexed_of_lex hl)
  rw [show l.kind = .word from hk] at hlexes
  rw [String.toList_ofList]
  generalize s.rest.dropWhile isGap = cs at hlexes
  generalize l.text = text at hlexes ⊢
  cases hlexes with
  | dot => exact ⟨by simp, by decide⟩
  | word hbare =>
    refine ⟨by simp, fun hmem => ?_⟩
    have := hbare _ hmem
    simp [isBare, isGap] at this

end Scanner

/-- Every word that is read from a source is spelled somewhere in it. -/
theorem exists_spelled {source : String} {before after : List Token} {t : Token}
    {stop : Except Fault Token}
    (h : (Scanner.start source .origin).Scans (before ++ t :: after) stop) (hk : t.kind = .word) :
    ∃ lines line spelled rest, t.Spelled source.toList lines line spelled rest := by
  obtain ⟨s₁, s₂, read₁, hb, hinput, hn⟩ := h.exists_next (Scanner.start_behind source .origin)
  obtain ⟨⟨front, back, hchars, hmarks, hspelled⟩, -⟩ := hb.next hn
  obtain ⟨more, rfl⟩ := hspelled (.inl hk)
  obtain ⟨-, hnobreak⟩ := Scanner.text_of_next_word hn hk
  have hunescape : unescape source.toList = front ++ (t.text.toList ++ more) := by
    rw [← hchars, hinput]
    exact String.toList_ofList.symm
  obtain ⟨us, vs, hsource, rfl, hvs⟩ := exists_of_unescape_append hunescape
  obtain ⟨spelled, tail, rfl, hword, -⟩ := exists_of_unescape_append hvs
  obtain ⟨lines, line, rfl, hline, hbreaks⟩ := exists_lastLine us
  obtain ⟨rest, after, rfl, hrest, hstops⟩ := exists_span (· != '\n') tail
  have hnospelled : '\n' ∉ spelled := by
    have hcount : spelled.count '\n' = 0 := by
      rw [← count_unescape, hword]
      exact List.count_eq_zero_of_not_mem hnobreak
    exact List.count_eq_zero.mp hcount
  have hnorest : '\n' ∉ rest := fun hmem => by simpa using hrest _ hmem
  refine ⟨lines, line, spelled, rest, ⟨after, ?_, hstops⟩, hbreaks, ?_, hword, hmarks⟩
  · rw [hsource]
    simp
  · simp [hline, hnospelled, hnorest]

namespace Token.Spelled

variable {t : Token} {source : String} {lines line spelled rest : List Char}

/-- The line of the word is the same in both texts. -/
theorem line_eq (h : t.Spelled source.toList lines line spelled rest) :
    t.location.line = (lines ++ line ++ spelled).count '\n' + 1 := by
  have hsame := h.sameLine
  have hnospelled : '\n' ∉ spelled := fun hmem => hsame (by simp [hmem])
  have hline := h.marks.line
  rw [count_unescape] at hline
  rw [List.count_append, List.count_eq_zero_of_not_mem hnospelled, hline]
  simp [Location.origin]
  omega

/-- The column of the word counts what stands before it in its line once entities are replaced. -/
theorem column_eq (h : t.Spelled source.toList lines line spelled rest) :
    t.location.column = Text.units (unescape line) + 1 := by
  have hnoline : '\n' ∉ line := fun hmem => h.sameLine (by simp [hmem])
  have hno : '\n' ∉ unescape line := by
    apply List.count_eq_zero.mp
    rw [count_unescape]
    exact List.count_eq_zero_of_not_mem hnoline
  have hmarks := h.marks
  have hstart := hmarks.startPos
  have horigin : Location.origin.startPos = 0 := rfl
  obtain rfl | ⟨before, rfl⟩ := h.breaks
  · rw [List.nil_append] at hmarks hstart
    have hcolumn := hmarks.firstLine hno
    have hfirst : Location.origin.column = 1 := rfl
    omega
  · have hsplit : unescape (before ++ ['\n'] ++ line) = unescape before ++ '\n' :: unescape line := by
      rw [List.append_assoc]
      exact unescape_append_cons (by decide) before line
    rw [hsplit] at hmarks hstart
    have hcolumn := hmarks.laterLine _ _ rfl hno
    rw [Text.units_append, Text.units_cons] at hstart
    have hwidth : Text.width '\n' = 1 := rfl
    omega

/-- The source up to the line of a word, and carets where the word stands in that line once entities
are replaced. -/
theorem highlight_eq (h : t.Spelled source.toList lines line spelled rest)
    (hne : t.text.toList ≠ []) :
    Fault.highlight source t.location =
      String.ofList (lines ++ line ++ spelled ++ rest) ++ "\n" ++
        Text.replicate (Text.units (unescape line)) ' ' ++
        Text.replicate (Text.units (unescape spelled)) '^' := by
  obtain ⟨after, hchars, hstops⟩ := h.chars
  have hquoted : Text.join "\n" (Fault.takeLines t.location.line (Text.splitAt '\n' source)) =
      String.ofList (lines ++ line ++ spelled ++ rest) := by
    have hrest : (rest ++ after).takeWhile (· != '\n') = rest := by
      refine takeWhile_append_of_stops (fun c hc => ?_) hstops
      have hnorest : '\n' ∉ rest := fun hmem => h.sameLine (by simp [hmem])
      simpa using fun hbreak : c = '\n' => hnorest (hbreak ▸ hc)
    have hsource : source = String.ofList (lines ++ line ++ spelled ++ (rest ++ after)) := by
      rw [← hchars, String.ofList_toList]
    have hcount : (if 0 ≤ t.location.line then t.location.line.toNat
        else ((Text.splitAt '\n' source).length + t.location.line).toNat) =
        (lines ++ line ++ spelled).count '\n' + 1 := by
      rw [h.line_eq]
      split <;> omega
    unfold Fault.takeLines
    rw [hcount, hsource, join_take_splitAt, hrest]
  have hblanks : (t.location.column - 1).toNat = Text.units (unescape line) := by
    rw [h.column_eq]
    omega
  have hcarets : (max 1 (t.location.endPos - t.location.startPos)).toNat =
      Text.units (unescape spelled) := by
    have hpos : 0 < Text.units t.text.toList := by
      cases htext : t.text.toList with
      | nil => exact absurd htext hne
      | cons c cs =>
        have := Text.width_pos c
        rw [Text.units_cons]
        omega
    rw [h.marks.endPos, h.text]
    omega
  unfold Fault.highlight
  rw [hquoted, hblanks, hcarets]

end Token.Spelled

end Wordstack
