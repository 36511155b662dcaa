import Wordstack.Machine.Evaluation
import Wordstack.Proofs.Runs.CallChain
import Wordstack.Proofs.Source.Carets

/-!
# Unknown words

- **Failing** (`finish_handleToken_unknown`): a word token that nothing is found for fails where it
  stands, whether or not a definition is open.
- **Showing** (`unknown_word_is_shown`): the text that shows the fault, and when its carets stand under
  the word.
-/

namespace Wordstack

variable {e : Nested} {i k : Interp} {s u : Store} {tk : Token} {f : Fault} {source : String}
  {lines line spelled rest : List Char}

theorem finish_handleToken_unknown (hk : tk.kind = .word)
    (hf : k.resolve u tk.text (some tk.location) = .error f) :
    (handleToken e tk).finish k u = .ended (.fault f) k u := by
  unfold handleToken
  rw [hk]
  simp only [Task.finish_bind, Task.finish_view, Outcome.bind_ok, hf]
  rfl

/-- What is not found is an unknown word, located at the token. -/
theorem Interp.eq_unknownWord_of_resolve {text : String} {l : Location}
    (hf : k.resolve u text (some l) = .error f) :
    f = .unknownWord k.topInput text (k.scopeChain u) (some l) := by
  unfold Interp.resolve Interp.findWord at hf
  cases hlit : k.literal? text with
  | some v =>
    rw [hlit] at hf
    cases hf
  | none =>
    rw [hlit] at hf
    cases hfound : k.scope.findSome? fun m => findIn? u.modules m text with
    | some w =>
      simp only [hfound] at hf
      cases hf
    | none =>
      simp only [hfound] at hf
      cases hf
      rfl

/-- A run that fails is evaluated to its fault and the stack that it has left. -/
theorem finish_evaluate_fault {j : Interp} {t : Store}
    (h : (runSource e source .origin).finish i s = .ended (.fault f) j t) :
    (evaluate e source).finish i s = .ended (.ok ⟨j.stack.toList, some f⟩) j t := by
  unfold evaluate
  rw [Task.finish_bind, Task.finish_attempt, h]
  rfl

/-- A run without a handler that comes to an unknown word is evaluated to the fault of that word. -/
theorem Task.ComesTo.finish_evaluate {depth : Nat}
    (h : Task.ComesTo (nested depth) source .origin i s tk k u) (hk : tk.kind = .word)
    (hf : k.resolve u tk.text (some tk.location) = .error f) (hi : i.recovery = none) :
    ∃ l, (evaluate (nested depth) source).finish i s =
      .ended (.ok ⟨l.stack.toList, some f⟩) l u := by
  obtain ⟨l, hrun⟩ := h.fails (finish_handleToken_unknown hk hf) hi
  exact ⟨l, finish_evaluate_fault hrun⟩

/-- A caret line stands exactly under a word that is spelled behind the start of a line: it has as
many blanks as there are units before the word, and as many carets as the word has units. -/
def StandsUnder (blanks carets : Nat) (line spelled : List Char) : Prop :=
  blanks = Text.units line ∧ carets = Text.units spelled

/-- Carets are placed by what stands before a word once entities are replaced. They stand under the
word exactly if there is no entity in its line up to its end. -/
theorem standsUnder_unescape_iff :
    StandsUnder (Text.units (unescape line)) (Text.units (unescape spelled)) line spelled ↔
      NoEntity line ∧ NoEntity spelled := by
  unfold StandsUnder
  rw [units_unescape_eq_iff, units_unescape_eq_iff]

/-- A fault of the engine that is located at a word is shown in the source up to the line of the
word. -/
theorem Token.Spelled.shown_eq (h : tk.Spelled source.toList lines line spelled rest)
    (hne : tk.text.toList ≠ []) (hengine : f.isEngine = true)
    (hl : f.location? = some tk.location) (hd : f.definitionLocation? = none) :
    f.shown source = f.message ++ " at line " ++ toString tk.location.line ++ ":\n```\n" ++
      (String.ofList (lines ++ line ++ spelled ++ rest) ++ "\n" ++
        Text.replicate (Text.units (unescape line)) ' ' ++
        Text.replicate (Text.units (unescape spelled)) '^') ++ "\n```" := by
  have hsource : source.isEmpty = false := by
    obtain ⟨after, hchars, -⟩ := h.chars
    have hspelled : spelled ≠ [] := by
      rintro rfl
      exact hne h.text.symm
    cases hempty : source.isEmpty with
    | false => rfl
    | true =>
      rw [String.isEmpty_iff.mp hempty] at hchars
      simp_all
  have hphrase : Fault.linePhrase tk.location = "line " ++ toString tk.location.line := by
    unfold Fault.linePhrase
    rw [h.marks.source]
    exact String.append_empty
  unfold Fault.shown Fault.describe
  rw [if_pos hengine, hl, hd]
  simp only [hsource]
  rw [hphrase, Fault.fenced, h.highlight_eq hne, show " at line " = " at " ++ "line " from rfl,
    show ":\n```\n" = ":\n" ++ "```\n" from rfl]
  simp only [String.append_assoc]
  rfl

/-- The run of a source comes to a word that nothing is found for. Its fault is located at the word,
and is the outcome of the evaluation if there is no handler. It is shown with the source up to the line
of the word and with a line of carets, which stand where the word stands once entities are replaced:
exactly under the word if and only if there is no entity before its end in its line. -/
theorem unknown_word_is_shown {depth : Nat}
    (h : Task.ComesTo (nested depth) source .origin i s tk k u) (hk : tk.kind = .word)
    (hf : k.resolve u tk.text (some tk.location) = .error f) :
    f = .unknownWord k.topInput tk.text (k.scopeChain u) (some tk.location) ∧
    (i.recovery = none → ∃ l, (evaluate (nested depth) source).finish i s =
      .ended (.ok ⟨l.stack.toList, some f⟩) l u) ∧
    ∃ lines line spelled rest, tk.Spelled source.toList lines line spelled rest ∧
      f.shown source = f.message ++ " at line " ++ toString tk.location.line ++ ":\n```\n" ++
        (String.ofList (lines ++ line ++ spelled ++ rest) ++ "\n" ++
          Text.replicate (Text.units (unescape line)) ' ' ++
          Text.replicate (Text.units (unescape spelled)) '^') ++ "\n```" ∧
      (StandsUnder (Text.units (unescape line)) (Text.units (unescape spelled)) line spelled ↔
        NoEntity line ∧ NoEntity spelled) := by
  have hunknown := Interp.eq_unknownWord_of_resolve hf
  have hscans : ∃ before after stop, (Scanner.start source .origin).Scans (before ++ tk :: after) stop := by
    cases h with
    | intro _ hscans _ => exact ⟨_, _, _, hscans⟩
  obtain ⟨before, after, stop, hscans⟩ := hscans
  obtain ⟨lines, line, spelled, rest, hspelled⟩ := exists_spelled hscans hk
  obtain ⟨s₁, s₂, read, -, -, hnext⟩ := hscans.exists_next (Scanner.start_behind source .origin)
  have hne := (Scanner.text_of_next_word hnext hk).1
  refine ⟨hunknown, h.finish_evaluate hk hf, lines, line, spelled, rest, hspelled, ?_,
    standsUnder_unescape_iff⟩
  subst hunknown
  exact hspelled.shown_eq hne rfl rfl rfl

/-- A word behind a string of two lines. -/
theorem unknown_word_is_shown_second_line : ∃ (f : Fault) (l : Interp) (t : Store),
    (evaluate (nested 0) "'a\nb' FOO").finish .blank .blank =
      .ended (.ok ⟨l.stack.toList, some f⟩) l t ∧
    f.location? = some ⟨none, 2, 4, 6, 9⟩ ∧
    ∃ tk lines line spelled rest, Token.Spelled tk "'a\nb' FOO".toList lines line spelled rest ∧
      (StandsUnder (Text.units (unescape line)) (Text.units (unescape spelled)) line spelled ↔
        NoEntity line ∧ NoEntity spelled) := by
  have htokens : tokenize "'a\nb' FOO" .origin =
      .ok [⟨.str, "a\nb", ⟨none, 1, 1, 0, 3⟩⟩, ⟨.word, "FOO", ⟨none, 2, 4, 6, 9⟩⟩] := by
    rfl
  obtain ⟨eos, hscans⟩ := tokenize_eq_ok_iff.mp htokens
  have hcomes : Task.ComesTo (nested 0) "'a\nb' FOO" .origin .blank .blank
      ⟨.word, "FOO", ⟨none, 2, 4, 6, 9⟩⟩ _ _ :=
    .intro (.outermost rfl rfl) (List.singleton_append ▸ hscans) rfl
  obtain ⟨hf, heval, lines, line, spelled, rest, hspelled, -, hunder⟩ :=
    unknown_word_is_shown hcomes rfl rfl
  obtain ⟨l, hl⟩ := heval rfl
  exact ⟨_, l, _, hl, rfl, _, lines, line, spelled, rest, hspelled, hunder⟩

/-- The word that is unknown in a source with an entity before it. -/
def behindEntity : Token := ⟨.word, "FOO", ⟨none, 1, 5, 4, 7⟩⟩

/-- An entity in a string moves the carets under a later word to the left. -/
theorem carets_may_miss_word : ∃ (f : Fault) (l : Interp) (t : Store),
    (evaluate (nested 0) "'&lt;' FOO").finish .blank .blank =
      .ended (.ok ⟨l.stack.toList, some f⟩) l t ∧
    f = .unknownWord "'<' FOO" "FOO" ["app"] (some behindEntity.location) ∧
    behindEntity.Spelled "'&lt;' FOO".toList [] "'&lt;' ".toList "FOO".toList [] ∧
    f.shown "'&lt;' FOO" =
      "Unknown word: FOO (searched: app) at line 1:\n```\n'&lt;' FOO\n    ^^^\n```" ∧
    ¬ StandsUnder 4 3 "'&lt;' ".toList "FOO".toList := by
  have htokens : tokenize "'&lt;' FOO" .origin =
      .ok [⟨.str, "<", ⟨none, 1, 1, 0, 1⟩⟩, behindEntity] := by
    rfl
  obtain ⟨eos, hscans⟩ := tokenize_eq_ok_iff.mp htokens
  have hcomes : Task.ComesTo (nested 0) "'&lt;' FOO" .origin .blank .blank behindEntity _ _ :=
    .intro (.outermost rfl rfl) (List.singleton_append ▸ hscans) rfl
  obtain ⟨l, hl⟩ := hcomes.finish_evaluate rfl rfl rfl
  refine ⟨_, l, _, hl, rfl, ?_, by decide +kernel, ?_⟩
  · refine ⟨⟨[], rfl, fun _ hc => by simp at hc⟩, .inl rfl, by decide, rfl, ?_⟩
    refine ⟨rfl, rfl, rfl, rfl, fun _ => rfl, fun lines line hbreak _ => ?_⟩
    have hmem : '\n' ∈ unescape ([] ++ "'&lt;' ".toList) := by
      rw [hbreak]
      simp
    exact absurd hmem (by decide)
  · unfold StandsUnder
    decide

end Wordstack
