import Wordstack.Proofs.Source.Rendering

/-!
# Texts that quotes hold

- **Runs** (`LongRunsEnd`): a run of three or more quotes in a text stands at its end. That is what
  the grammar asks of a text between three quotes (`endsTripled_iff_longRunsEnd`).
- **Readings** (`reads_three_quotes_iff`, `reads_one_quote_iff`): the texts that are read back as
  one string from between three quotes, and from between single ones.
- **Sources** (`quoted_text_reads_back_iff`).
-/

namespace Wordstack

/-! ## Runs -/

/-- Every run of three or more quotes that is not part of a longer one stands at the very end. -/
def LongRunsEnd (q : Char) (text : List Char) : Prop :=
  ∀ before n after, text = before ++ List.replicate n q ++ after → 3 ≤ n →
    before.getLast? ≠ some q → after.head? ≠ some q → after = []

/-- Every text ends with a run of quotes, which may be empty. -/
theorem exists_last_run (q : Char) (text : List Char) :
    ∃ before n, text = before ++ List.replicate n q ∧ before.getLast? ≠ some q := by
  induction text using List.reverseRecOn with
  | nil => exact ⟨[], 0, rfl, by simp⟩
  | append_singleton text c ih =>
    by_cases hc : c = q
    · obtain ⟨before, n, rfl, hlast⟩ := ih
      exact ⟨before, n + 1, by rw [hc, List.append_assoc, List.replicate_succ'], hlast⟩
    · exact ⟨text ++ [c], 0, by simp, by simpa using hc⟩

theorem replicate_add_three (n : Nat) (q : Char) :
    List.replicate (n + 3) q = List.replicate n q ++ [q, q, q] :=
  List.replicate_append_replicate.symm

theorem endsTripled_iff_longRunsEnd {q : Char} {text : List Char} :
    EndsTripled q text ↔ LongRunsEnd q text := by
  constructor
  · intro h before n after e hn _ hafter
    -- the last three quotes of the run stand before what follows it
    obtain ⟨n, rfl⟩ := Nat.exists_eq_add_of_le' hn
    have hlast : text = before ++ List.replicate n q ++ q :: q :: q :: after := by
      simp [e, replicate_add_three]
    exact (h _ after hlast).resolve_right hafter
  · intro h before after e
    by_contra hnot
    rw [not_or] at hnot
    -- the three quotes are the end of a run, which goes back to the last other character
    obtain ⟨start, n, rfl, hstart⟩ := exists_last_run q before
    have hrun : text = start ++ List.replicate (n + 3) q ++ after := by
      simp [e, replicate_add_three]
    exact hnot.1 (h start (n + 3) after hrun (Nat.le_add_left 3 n) hstart hnot.2)

/-! ## Readings -/

theorem stops_gap_quoted {q : Char} (hq : isQuote q = true) (n : Nat) (text : List Char) :
    Stops isGap (quoted (n + 1) q text) := by
  obtain rfl | rfl | rfl := isQuote_iff.mp hq <;> simp [quoted, List.replicate, Stops, isGap]

/-- A text between quotes is read as one string if and only if the grammar takes all of it. -/
theorem reads_quoted_iff {q : Char} (hq : isQuote q = true) {n : Nat} {text : List Char} :
    Reads (quoted (n + 1) q text) [(.str, text)] ↔
      ∃ rest, Lexes (quoted (n + 1) q text) .str text rest ∧ Reads rest [] := by
  constructor
  · intro h
    cases h with
    | @next _ _ _ rest _ hl _ tail =>
      rw [lexed_iff, dropWhile_of_stops (stops_gap_quoted hq n text)] at hl
      exact ⟨rest, hl, tail⟩
  · rintro ⟨rest, hl, tail⟩
    exact .next hl.lexed_eq nofun tail

theorem reads_three_quotes_iff {q : Char} (hq : isQuote q = true) {text : List Char} :
    Reads (quoted 3 q text) [(.str, text)] ↔ LongRunsEnd q text := by
  rw [reads_quoted_iff hq, ← endsTripled_iff_longRunsEnd]
  constructor
  · rintro ⟨rest, hl, -⟩
    generalize hcs : quoted 3 q text = cs at hl
    have hhead : cs.head? = some q := by simp [← hcs, quoted, List.replicate]
    cases hl with
    | quoted _ hmem =>
      obtain rfl : _ = q := by simpa using hhead
      exact endsTripled_of_notMem hmem
    | tripled _ hends =>
      obtain rfl : _ = q := by simpa using hhead
      exact hends
  · exact fun h => ⟨[], lexes_quoted_three hq h, .nil⟩

theorem reads_one_quote_iff {q : Char} (hq : isQuote q = true) {text : List Char} :
    Reads (quoted 1 q text) [(.str, text)] ↔ q ∉ text := by
  rw [reads_quoted_iff hq]
  constructor
  · rintro ⟨rest, hl, -⟩
    generalize hcs : quoted 1 q text = cs at hl
    have hhead : cs.head? = some q := by simp [← hcs, quoted]
    have hlength : cs.length = text.length + 2 := by
      simp only [← hcs, quoted, List.length_append, List.length_replicate]
      omega
    cases hl with
    | quoted _ hmem =>
      obtain rfl : _ = q := by simpa using hhead
      exact hmem
    | tripled =>
      -- three quotes on each side would be four characters more than there are
      simp only [List.length_cons, List.length_append] at hlength
      omega
  · exact fun h => ⟨[], lexes_quoted_one hq h, .nil⟩

/-! ## Sources -/

/-- A source is one token if and only if it is read as one. -/
theorem tokenize_singleton_iff {source text : String} {origin : Location} {k : TokenKind} :
    (∃ token, tokenize source origin = .ok [token] ∧ token.pair = (k, text)) ↔
      Reads (unescape source.toList) [(k, text.toList)] := by
  rw [← @tokenize_iff_reads _ origin]
  constructor
  · rintro ⟨token, htokens, hpair⟩
    obtain ⟨rfl, rfl⟩ := Prod.mk.inj hpair
    exact ⟨[token], htokens, rfl⟩
  · rintro ⟨tokens, htokens, hpairs⟩
    obtain ⟨token, rfl, hlexeme⟩ := List.map_eq_singleton_iff.mp hpairs
    obtain ⟨rfl, htext⟩ := Prod.mk.inj hlexeme
    exact ⟨token, htokens, Prod.ext rfl (String.toList_inj.mp htext)⟩

/-- A text without entities between three quotes of a kind is one string, that text, if and only if
its runs of three or more such quotes stand at its very end. Between single quotes it is one string,
that text, if and only if the quote does not occur in it. -/
theorem quoted_text_reads_back_iff {q : Char} {text : String} (hq : isQuote q = true)
    (h : NoEntity text.toList) (origin : Location) :
    ((∃ token, tokenize (String.ofList (quoted 3 q text.toList)) origin = .ok [token] ∧
        token.pair = (.str, text)) ↔ LongRunsEnd q text.toList) ∧
    ((∃ token, tokenize (String.ofList (quoted 1 q text.toList)) origin = .ok [token] ∧
        token.pair = (.str, text)) ↔ q ∉ text.toList) := by
  simp only [tokenize_singleton_iff, String.toList_ofList, (h.quoted hq _).unescape_eq]
  exact ⟨reads_three_quotes_iff hq, reads_one_quote_iff hq⟩

/-- A text with two quotes inside and four at its end is held by three quotes on each side, and not
by one. -/
theorem quoted_text_reads_back_runs :
    isQuote '^' = true ∧ NoEntity "a^^b^^^^".toList ∧ LongRunsEnd '^' "a^^b^^^^".toList ∧
      (∃ token, tokenize "^^^a^^b^^^^^^^" .origin = .ok [token] ∧
        token.pair = (.str, "a^^b^^^^")) ∧
      ¬ ∃ token, tokenize "^a^^b^^^^^" .origin = .ok [token] ∧ token.pair = (.str, "a^^b^^^^") := by
  have hentity : NoEntity "a^^b^^^^".toList := ⟨by decide, by decide⟩
  obtain ⟨hthree, hone⟩ := quoted_text_reads_back_iff (q := '^') (by decide) hentity .origin
  have hlexed : lexed (quoted 3 '^' "a^^b^^^^".toList) = some (.str, "a^^b^^^^".toList, []) := by
    decide +kernel
  have hruns := (reads_three_quotes_iff (by decide)).mp (.next hlexed nofun .nil)
  refine ⟨by decide, hentity, hruns, hthree.mpr hruns, fun htoken => hone.mp htoken (by decide)⟩

end Wordstack
