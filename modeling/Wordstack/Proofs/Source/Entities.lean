import Mathlib.Data.List.Infix
import Mathlib.Tactic.Common
import Wordstack.Source.Scanner

/-!
# Entities

- **Texts without entities** (`NoEntity`): neither `&lt;` nor `&gt;` occurs.
- **Replacing** (`noEntity_unescape`, `NoEntity.unescape_eq`): replaced texts have no entities, and
  texts without entities are left as they are. Two texts with a character between them that entities
  do not have are replaced one by one (`unescape_append_cons`).
- **Parts** (`NoEntity.of_part`, `NoEntity.append_cons`): parts of texts without entities have none,
  nor have two such texts with a character between them that entities do not have.
- **Sources** (`entities_are_replaced_once`): reading what a scanner reads once more changes nothing.
-/

namespace Wordstack

/-- The characters of an entity. -/
def entity (a b : Char) : List Char := ['&', a, b, ';']

/-- Neither entity occurs in the text. -/
def NoEntity (cs : List Char) : Prop := ¬ entity 'l' 't' <:+: cs ∧ ¬ entity 'g' 't' <:+: cs

/-! ## Replacing -/

/-- One step of replacing: the text begins with an entity, or its first character stays. -/
theorem replaceEntity_cases (a b out c : Char) (cs : List Char) :
    (∃ rest, c :: cs = entity a b ++ rest ∧
      replaceEntity a b out (c :: cs) = out :: replaceEntity a b out rest) ∨
    (¬ entity a b <+: c :: cs ∧
      replaceEntity a b out (c :: cs) = c :: replaceEntity a b out cs) := by
  by_cases h : entity a b <+: c :: cs
  · obtain ⟨rest, hrest⟩ := h
    left
    refine ⟨rest, hrest.symm, ?_⟩
    rw [← hrest]
    simp [entity, replaceEntity]
  · refine .inr ⟨h, ?_⟩
    rw [replaceEntity.eq_def]
    split
    case h_1 => simp_all
    case h_2 x y rest heq =>
      simp only [List.cons.injEq] at heq
      obtain ⟨rfl, rfl⟩ := heq
      split
      case isTrue hxy =>
        simp only [Bool.and_eq_true, beq_iff_eq] at hxy
        obtain ⟨rfl, rfl⟩ := hxy
        exact absurd ⟨rest, by simp [entity]⟩ h
      case isFalse => rfl
    case h_3 c' rest _ heq =>
      simp only [List.cons.injEq] at heq
      obtain ⟨rfl, rfl⟩ := heq
      rfl

theorem replaceEntity_of_not_occurs {a b out : Char} {cs : List Char}
    (h : ¬ entity a b <:+: cs) : replaceEntity a b out cs = cs := by
  induction cs with
  | nil => rfl
  | cons c cs ih =>
    obtain ⟨rest, e, -⟩ | ⟨-, e⟩ := replaceEntity_cases a b out c cs
    · exact absurd ⟨[], rest, by simp [e]⟩ h
    · rw [e, ih fun h' => h (h'.trans (List.suffix_cons c cs).isInfix)]

/-- What a replaced text begins with, without the character put in, the text begins with. -/
theorem begins_of_replaceEntity {a b out : Char} {part cs : List Char} (ho : out ∉ part)
    (h : part <+: replaceEntity a b out cs) : part <+: cs := by
  induction cs generalizing part with
  | nil => exact h
  | cons c cs ih =>
    cases part with
    | nil => exact List.nil_prefix
    | cons p part =>
      obtain ⟨rest, -, e⟩ | ⟨-, e⟩ := replaceEntity_cases a b out c cs
      · rw [e, List.cons_prefix_cons] at h
        exact absurd (by simp [h.1]) ho
      · rw [e, List.cons_prefix_cons] at h
        exact List.cons_prefix_cons.mpr ⟨h.1, ih (fun h' => ho (by simp [h'])) h.2⟩

/-- What occurs in a replaced text, without the character put in, occurs in the text. -/
theorem occurs_of_replaceEntity {a b out p : Char} {part : List Char} (ho : out ∉ p :: part) :
    ∀ {cs : List Char}, p :: part <:+: replaceEntity a b out cs → p :: part <:+: cs
  | [], h => h
  | c :: cs, h => by
    obtain ⟨rest, e, er⟩ | ⟨-, er⟩ := replaceEntity_cases a b out c cs
    · have hlen : rest.length ≤ cs.length := by
        have := congrArg List.length e
        simp only [entity, List.length_cons, List.length_append, List.length_nil] at this
        omega
      rw [er, List.infix_cons_iff, List.cons_prefix_cons] at h
      obtain ⟨hp, -⟩ | h := h
      · exact absurd (by simp [hp]) ho
      · rw [e]
        exact (occurs_of_replaceEntity ho h).trans (List.suffix_append _ rest).isInfix
    · by_cases hp : p :: part <+: replaceEntity a b out (c :: cs)
      · exact (begins_of_replaceEntity ho hp).isInfix
      · rw [er] at h hp
        obtain h | h := List.infix_cons_iff.mp h
        · exact absurd h hp
        · exact (occurs_of_replaceEntity ho h).trans (List.suffix_cons c cs).isInfix
termination_by cs => cs.length

/-- A replaced entity does not occur any more. -/
theorem not_occurs_replaceEntity {a b out : Char} (ho : out ∉ entity a b) :
    ∀ cs : List Char, ¬ entity a b <:+: replaceEntity a b out cs
  | [] => by simp [replaceEntity, entity]
  | c :: cs => by
    intro h
    obtain ⟨rest, e, er⟩ | ⟨hn, er⟩ := replaceEntity_cases a b out c cs
    · have hlen : rest.length ≤ cs.length := by
        have := congrArg List.length e
        simp only [entity, List.length_cons, List.length_append, List.length_nil] at this
        omega
      rw [er, List.infix_cons_iff, entity, List.cons_prefix_cons] at h
      obtain ⟨hp, -⟩ | h := h
      · exact ho (by simp [entity, ← hp])
      · exact not_occurs_replaceEntity ho rest h
    · by_cases hp : entity a b <+: replaceEntity a b out (c :: cs)
      · exact hn (begins_of_replaceEntity ho hp)
      · rw [er] at h hp
        obtain h | h := List.infix_cons_iff.mp h
        · exact hp h
        · exact not_occurs_replaceEntity ho cs h
termination_by cs => cs.length

/-- A part without the character between two texts begins with the first one. -/
theorem prefix_of_prefix_append_cons {c : Char} {part xs ys : List Char} (hc : c ∉ part)
    (h : part <+: xs ++ c :: ys) : part <+: xs := by
  have hmore : xs ++ [c] <+: xs ++ c :: ys := ⟨ys, by simp⟩
  obtain h | h := List.prefix_or_prefix_of_prefix h hmore
  · obtain rfl | h := List.prefix_concat_iff.mp h
    · exact absurd (by simp) hc
    · exact h
  · exact absurd (h.mem (by simp)) hc

/-- Entities are replaced on either side of a character that they do not have. -/
theorem replaceEntity_append_cons {a b out c : Char} (hc : c ∉ entity a b) (ds : List Char) :
    ∀ cs : List Char, replaceEntity a b out (cs ++ c :: ds) =
      replaceEntity a b out cs ++ c :: replaceEntity a b out ds
  | [] => by
    obtain ⟨rest, e, -⟩ | ⟨-, e⟩ := replaceEntity_cases a b out c ds
    · exact absurd (by simp [entity] at e; simp [entity, e.1]) hc
    · exact e
  | x :: cs => by
    obtain ⟨rest, e, er⟩ | ⟨hn, er⟩ := replaceEntity_cases a b out x cs
    · have hlen : rest.length ≤ cs.length := by
        have := congrArg List.length e
        simp only [entity, List.length_cons, List.length_append, List.length_nil] at this
        omega
      rw [er, e, List.append_assoc]
      simp [entity, replaceEntity, replaceEntity_append_cons hc ds rest]
    · obtain ⟨rest, e, -⟩ | ⟨-, er'⟩ := replaceEntity_cases a b out x (cs ++ c :: ds)
      · exact absurd (prefix_of_prefix_append_cons hc ⟨rest, e.symm⟩) hn
      · rw [er, List.cons_append, er', replaceEntity_append_cons hc ds cs, List.cons_append]
termination_by cs => cs.length

theorem unescape_append_cons {c : Char} (hc : c ∉ entity 'l' 't' ++ entity 'g' 't')
    (xs ys : List Char) : unescape (xs ++ c :: ys) = unescape xs ++ c :: unescape ys := by
  rw [List.mem_append, not_or] at hc
  unfold unescape
  rw [replaceEntity_append_cons hc.1, replaceEntity_append_cons hc.2]

/-- A source has no entities once they are replaced. -/
theorem noEntity_unescape (cs : List Char) : NoEntity (unescape cs) :=
  ⟨fun h => not_occurs_replaceEntity (by decide) cs (occurs_of_replaceEntity (by decide) h),
    not_occurs_replaceEntity (by decide) _⟩

namespace NoEntity

theorem unescape_eq {cs : List Char} (h : NoEntity cs) : unescape cs = cs := by
  rw [unescape, replaceEntity_of_not_occurs h.1, replaceEntity_of_not_occurs h.2]

/-! ## Parts -/

theorem of_part {part cs : List Char} (h : NoEntity cs) (hp : part <:+: cs) : NoEntity part :=
  ⟨fun h' => h.1 (h'.trans hp), fun h' => h.2 (h'.trans hp)⟩

/-- What occurs in two texts with a character between them that it does not have occurs in one of
the texts. -/
theorem occurs_append_cons {c : Char} {part xs ys : List Char} (hc : c ∉ part)
    (h : part <:+: xs ++ c :: ys) : part <:+: xs ∨ part <:+: ys := by
  obtain h | h | ⟨l₁, l₂, rfl, h₁, h₂⟩ := List.infix_append_iff.mp h
  · exact .inl h
  · obtain h | h := List.infix_cons_iff.mp h
    · obtain rfl | ⟨t, rfl, -⟩ := List.prefix_cons_iff.mp h
      · exact .inr List.nil_infix
      · exact absurd (by simp) hc
    · exact .inr h
  · obtain rfl | ⟨t, rfl, -⟩ := List.prefix_cons_iff.mp h₂
    · exact .inl (by simpa using h₁.isInfix)
    · exact absurd (by simp) hc

theorem append_cons {c : Char} {xs ys : List Char} (hx : NoEntity xs) (hy : NoEntity ys)
    (hc : c ∉ entity 'l' 't' ++ entity 'g' 't') : NoEntity (xs ++ c :: ys) := by
  rw [List.mem_append, not_or] at hc
  exact ⟨fun h => (occurs_append_cons hc.1 h).elim hx.1 hy.1,
    fun h => (occurs_append_cons hc.2 h).elim hx.2 hy.2⟩

theorem nil : NoEntity [] := by simp [NoEntity, entity]

theorem cons {c : Char} {xs : List Char} (hx : NoEntity xs)
    (hc : c ∉ entity 'l' 't' ++ entity 'g' 't') : NoEntity (c :: xs) :=
  append_cons nil hx hc

end NoEntity

/-! ## Sources -/

/-- A scanner over the input of a scanner is the same one. -/
theorem Scanner.start_input (text : String) (origin : Location) :
    start (start text origin).input origin = start text origin := by
  have hagain := (noEntity_unescape text.toList).unescape_eq
  unfold start
  simp only [String.toList_ofList]
  rw [hagain]

/-- What a scanner reads has no entity, however entities were nested in the source. Replacing them in
it once more changes neither the text nor its tokens, their locations and faults. Texts with a
character between them that entities do not have are replaced one by one. -/
theorem entities_are_replaced_once (text : String) (origin : Location) :
    NoEntity (Scanner.start text origin).input.toList ∧
      (Scanner.start (Scanner.start text origin).input origin).input =
        (Scanner.start text origin).input ∧
      (Scanner.start (Scanner.start text origin).input origin).tokens =
        (Scanner.start text origin).tokens ∧
      tokenize (Scanner.start text origin).input origin = tokenize text origin ∧
      ∀ (c : Char) (xs ys : List Char), c ∉ entity 'l' 't' ++ entity 'g' 't' →
        unescape (xs ++ c :: ys) = unescape xs ++ c :: unescape ys := by
  have hsame := Scanner.start_input text origin
  refine ⟨?_, by rw [hsame], by rw [hsame], ?_, fun _ xs ys hc => unescape_append_cons hc xs ys⟩
  · rw [Scanner.start, String.toList_ofList]
    exact noEntity_unescape text.toList
  · rw [tokenize, hsame]
    rfl

theorem entities_are_replaced_once_nested :
    ' ' ∉ entity 'l' 't' ++ entity 'g' 't' ∧
      (Scanner.start "&l&gt;t; &&lt;lt;" .origin).input = "&l>t; &<lt;" ∧
      (Scanner.start "&l>t; &<lt;" .origin).tokens =
        (Scanner.start "&l&gt;t; &&lt;lt;" .origin).tokens ∧
      unescape ("&l&gt;t;".toList ++ ' ' :: "&&lt;lt;".toList) =
        "&l>t;".toList ++ ' ' :: "&<lt;".toList := by
  have h := entities_are_replaced_once "&l&gt;t; &&lt;lt;" .origin
  have hinput : (Scanner.start "&l&gt;t; &&lt;lt;" .origin).input = "&l>t; &<lt;" := by decide
  have hc : ' ' ∉ entity 'l' 't' ++ entity 'g' 't' := by decide
  refine ⟨hc, hinput, hinput ▸ h.2.2.1, ?_⟩
  rw [h.2.2.2.2 ' ' _ _ hc]
  decide

end Wordstack
