import Wordstack.Module.Define
import Wordstack.Proofs.Text.Spans

/-!
# Stack effects and their texts

- **Words between blanks** (`Text.IsWord`): the parts of a trimmed text (`isWord_of_splitBlank`),
  and of words with a space between them (`splitBlank_spaced`).
- **Dashes** (`StackEffect.splitDashes_append_cons`): two dashes are looked for word by word.
- **Effects** (`StackEffect.WellFormed`): the items of both sides can be told from the marks of an
  effect. Reading makes these effects and no others, and reads each back from its text
  (`stack_effects_read_back`).
-/

namespace Wordstack

/-! ## Words between blanks -/

/-- The last character of what follows a character is the last of all. -/
theorem Stops.of_reverse_cons {p : Char → Bool} {c : Char} {cs : List Char}
    (h : Stops p (c :: cs).reverse) : Stops p cs.reverse := by
  intro d hd
  refine h d ?_
  rw [List.reverse_cons, List.head?_append_of_ne_nil _ (List.ne_nil_of_mem
    (List.mem_of_mem_head? hd))]
  exact hd

namespace Text

/-- Characters, none of them blank. -/
structure IsWord (cs : List Char) : Prop where
  nonempty : cs ≠ []
  unblank : ∀ c ∈ cs, isBlank c = false

/-- Words with a space after each. -/
def spaced (ws : List (List Char)) : List Char := ws.flatMap fun w => w ++ [' ']

@[simp] theorem spaced_nil : spaced [] = [] := rfl

@[simp] theorem spaced_cons (w : List Char) (ws : List (List Char)) :
    spaced (w :: ws) = w ++ ' ' :: spaced ws := by
  simp [spaced]

@[simp] theorem spaced_append (vs ws : List (List Char)) :
    spaced (vs ++ ws) = spaced vs ++ spaced ws := by
  simp [spaced]

/-- Parts joined with spaces have a space after each but the last. -/
theorem toList_join_spaced (parts : List String) (last : String) :
    (join " " (parts ++ [last])).toList = spaced (parts.map String.toList) ++ last.toList := by
  induction parts with
  | nil => rfl
  | cons part parts ih =>
    have hjoin : join " " (part :: (parts ++ [last])) =
        part ++ " " ++ join " " (parts ++ [last]) := by
      cases parts <;> rfl
    rw [List.cons_append, hjoin, String.toList_append, String.toList_append, ih, List.map_cons,
      spaced_cons, List.append_assoc, List.append_assoc]
    rfl

theorem splitBlankFrom_append {part w : List Char} (hw : ∀ c ∈ w, isBlank c = false)
    (more : List Char) :
    splitBlankFrom part false (w ++ more) = splitBlankFrom (w.reverse ++ part) false more := by
  induction w generalizing part with
  | nil => rfl
  | cons c w ih =>
    obtain ⟨hc, hw⟩ := List.forall_mem_cons.mp hw
    rw [List.cons_append, splitBlankFrom, hc, if_neg Bool.false_ne_true, if_neg Bool.false_ne_true,
      ih hw, List.reverse_cons, List.append_assoc, List.singleton_append]

theorem splitBlank_of_isWord {w : List Char} (hw : IsWord w) : splitBlank w = [w] := by
  have happend : splitBlankFrom [] false (w ++ []) = splitBlankFrom (w.reverse ++ []) false [] :=
    splitBlankFrom_append hw.unblank []
  rw [List.append_nil, List.append_nil] at happend
  rw [splitBlank, happend, splitBlankFrom, if_neg Bool.false_ne_true, List.reverse_reverse]

/-- A word, a space and what begins with another word. -/
theorem splitBlank_cons {w more : List Char} (hw : IsWord w) (hne : more ≠ [])
    (hmore : Stops isBlank more) : splitBlank (w ++ ' ' :: more) = w :: splitBlank more := by
  obtain ⟨c, more, rfl⟩ := List.exists_cons_of_ne_nil hne
  have hc : isBlank c = false := hmore c rfl
  rw [splitBlank, splitBlank, splitBlankFrom_append hw.unblank, splitBlankFrom,
    if_pos (by decide), splitBlankFrom, splitBlankFrom, hc, if_neg Bool.false_ne_true, if_pos rfl,
    if_neg Bool.false_ne_true, if_neg Bool.false_ne_true, List.append_nil, List.reverse_reverse]

theorem IsWord.trimmed {w : List Char} (hw : IsWord w) : Trimmed w := trimmed_of_forall hw.unblank

/-- Words with spaces between them have no blanks at the ends. -/
theorem trimmed_spaced {ws : List (List Char)} {w : List Char} (hws : ∀ x ∈ ws, IsWord x)
    (hw : IsWord w) : Trimmed (spaced ws ++ w) := by
  constructor
  · cases ws with
    | nil => exact hw.trimmed.first
    | cons x ws =>
      have hx := hws x List.mem_cons_self
      intro c hc
      refine hx.trimmed.first c ?_
      rw [spaced_cons, List.append_assoc, List.head?_append_of_ne_nil _ hx.nonempty] at hc
      exact hc
  · intro c hc
    refine hw.trimmed.last c ?_
    rw [List.reverse_append, List.head?_append_of_ne_nil _ (by simpa using hw.nonempty)] at hc
    exact hc

theorem splitBlank_spaced {ws : List (List Char)} {w : List Char} (hws : ∀ x ∈ ws, IsWord x)
    (hw : IsWord w) : splitBlank (spaced ws ++ w) = ws ++ [w] := by
  induction ws with
  | nil => exact splitBlank_of_isWord hw
  | cons x ws ih =>
    obtain ⟨hx, hws⟩ := List.forall_mem_cons.mp hws
    have hne : spaced ws ++ w ≠ [] := List.append_ne_nil_of_right_ne_nil _ hw.nonempty
    rw [spaced_cons, List.append_assoc, List.cons_append,
      splitBlank_cons hx hne (trimmed_spaced hws hw).first, ih hws]
    rfl

/-- The parts of a text that goes on after a word, and does not end with a blank. -/
theorem isWord_of_splitBlankFrom {part cs : List Char} {gap : Bool} (hpart : IsWord part)
    (hgap : cs = [] → gap = false) (hlast : Stops isBlank cs.reverse) :
    ∀ w ∈ splitBlankFrom part gap cs, IsWord w := by
  have hword : IsWord part.reverse :=
    ⟨by simpa using hpart.nonempty, fun c hc => hpart.unblank c (List.mem_reverse.mp hc)⟩
  induction cs generalizing part gap with
  | nil =>
    rw [hgap rfl, splitBlankFrom, if_neg Bool.false_ne_true]
    exact List.forall_mem_singleton.mpr hword
  | cons c cs ih =>
    have hrest := hlast.of_reverse_cons
    rw [splitBlankFrom]
    split
    case isTrue hc =>
      refine ih hpart (fun hnil => ?_) hrest hword
      rw [hnil] at hlast
      exact absurd (hlast c rfl) (by simp [hc])
    case isFalse hc =>
      have hone : IsWord [c] := ⟨nofun, List.forall_mem_singleton.mpr (by simpa using hc)⟩
      split
      case isTrue =>
        exact List.forall_mem_cons.mpr ⟨hword, ih hone (fun _ => rfl) hrest hone⟩
      case isFalse =>
        have hmore : IsWord (c :: part) :=
          ⟨nofun, List.forall_mem_cons.mpr ⟨by simpa using hc, hpart.unblank⟩⟩
        refine ih hmore (fun _ => rfl) hrest ⟨by simp, fun d hd => hmore.unblank d ?_⟩
        exact List.mem_reverse.mp hd

/-- The parts of a text without blanks at its ends are words. -/
theorem isWord_of_splitBlank {cs : List Char} (hne : cs ≠ []) (h : Trimmed cs) :
    ∀ w ∈ splitBlank cs, IsWord w := by
  obtain ⟨c, cs, rfl⟩ := List.exists_cons_of_ne_nil hne
  have hc : isBlank c = false := h.first c rfl
  rw [splitBlank, splitBlankFrom, hc, if_neg Bool.false_ne_true, if_neg Bool.false_ne_true]
  exact isWord_of_splitBlankFrom ⟨nofun, List.forall_mem_singleton.mpr hc⟩ (fun _ => rfl)
    h.last.of_reverse_cons

end Text

/-! ## Dashes -/

namespace StackEffect

theorem splitDashes_cons {c : Char} {cs : List Char} (h : ¬ ['-', '-'] <+: c :: cs) :
    splitDashes (c :: cs) = (splitDashes cs).map fun r => (c :: r.1, r.2) := by
  rw [splitDashes.eq_def]
  split
  case h_1 rest heq => exact absurd ⟨rest, heq.symm⟩ h
  case h_2 heq =>
    obtain ⟨rfl, rfl⟩ := List.cons.inj heq
    rfl
  case h_3 heq => cases heq

/-- Dashes that do not stand before a character that is none stand after it. -/
theorem splitDashes_append_cons {w : List Char} {c : Char} (h : ¬ ['-', '-'] <:+: w)
    (hc : c ≠ '-') (more : List Char) :
    splitDashes (w ++ c :: more) = (splitDashes more).map fun r => (w ++ c :: r.1, r.2) := by
  induction w with
  | nil =>
    refine splitDashes_cons ?_
    rw [List.cons_prefix_cons]
    exact fun hdash => hc hdash.1.symm
  | cons d w ih =>
    rw [List.infix_cons_iff, not_or] at h
    obtain ⟨hfirst, hlater⟩ := h
    have hnot : ¬ ['-', '-'] <+: d :: (w ++ c :: more) := by
      rintro ⟨rest, hrest⟩
      obtain ⟨rfl, htail⟩ := List.cons.inj hrest
      cases w with
      | nil => exact hc (List.cons.inj htail).1.symm
      | cons x w =>
        obtain ⟨rfl, -⟩ := List.cons.inj htail
        exact hfirst ⟨w, rfl⟩
    rw [List.cons_append, splitDashes_cons hnot, ih hlater, Option.map_map]
    rfl

/-- The first dashes after words without any. -/
theorem splitDashes_spaced {ws : List (List Char)} (h : ∀ w ∈ ws, ¬ ['-', '-'] <:+: w)
    (more : List Char) :
    splitDashes (Text.spaced ws ++ '-' :: '-' :: more) = some (Text.spaced ws, more) := by
  induction ws with
  | nil => rfl
  | cons w ws ih =>
    obtain ⟨hw, hws⟩ := List.forall_mem_cons.mp h
    rw [Text.spaced_cons, List.append_assoc, List.cons_append,
      splitDashes_append_cons hw (by decide), ih hws, Option.map_some]

/-! ## Effects -/

/-- A text that can stand for one value of an effect. -/
structure IsFormed (item : String) : Prop where
  word : Text.IsWord item.toList
  noColonFirst : item.toList.head? ≠ some ':'
  noColonLast : item.toList.getLast? ≠ some ':'
  noDashes : ¬ ['-', '-'] <:+: item.toList

/-- The items of both sides can be told from the marks of an effect: inputs do not begin with the
bracket of an options slot. -/
structure WellFormed (e : StackEffect) : Prop where
  inputs : ∀ item ∈ e.inputs, IsFormed item ∧ item.toList.head? ≠ some '['
  outputs : ∀ item ∈ e.outputs, IsFormed item

theorem isItem_iff {item : String} : isItem item = true ↔
    item.toList.head? ≠ some ':' ∧ item.toList.getLast? ≠ some ':' ∧
      ¬ ['-', '-'] <:+: item.toList := by
  have hfirst : Text.startsWith item ":" = true ↔ item.toList.head? = some ':' := by
    rw [Text.startsWith, List.isPrefixOf_iff_prefix, List.head?_eq_some_iff]
    exact exists_congr fun more => eq_comm
  have hlast : Text.endsWith item ":" = true ↔ item.toList.getLast? = some ':' := by
    rw [Text.endsWith, List.isSuffixOf_iff_suffix, List.getLast?_eq_some_iff]
    exact exists_congr fun more => eq_comm
  have hdashes : Text.contains item "--" = true ↔ ['-', '-'] <:+: item.toList :=
    containsChars_iff
  rw [isItem, Bool.not_eq_true', Bool.eq_false_iff, ne_eq, Bool.or_eq_true, Bool.or_eq_true, hfirst,
    hlast, hdashes, or_assoc, not_or, not_or]

/-- What stands between the parentheses is cut at its first dashes. -/
theorem parts_parenthesized (inner : List Char) :
    parts ('(' :: (inner ++ [')'])) =
      (splitDashes inner).map fun r => (Text.trimChars r.1, Text.trimChars r.2) := by
  have hlast : ('(' :: (inner ++ [')'])).getLast? = some ')' := by
    rw [← List.cons_append, List.getLast?_concat]
  unfold parts
  rw [hlast]
  simp only [List.dropLast_concat]
  cases splitDashes inner <;> rfl

/-- The parts are trimmed. -/
theorem trimmed_of_parts {cs before after : List Char} (h : parts cs = some (before, after)) :
    Text.Trimmed before ∧ Text.Trimmed after := by
  unfold parts at h
  split at h
  case h_1 =>
    split at h
    case h_1 =>
      cases h
      exact ⟨Text.trimmed_trimChars _, Text.trimmed_trimChars _⟩
    case h_2 => cases h
  case h_2 => cases h

/-- The items of a trimmed side are words. -/
theorem isWord_of_items {cs : List Char} (h : Text.Trimmed cs) :
    ∀ item ∈ items cs, Text.IsWord item.toList := by
  intro item hitem
  unfold items at hitem
  split at hitem
  case isTrue => cases hitem
  case isFalse hne =>
    obtain ⟨w, hw, rfl⟩ := List.mem_map.mp hitem
    rw [String.toList_ofList]
    exact Text.isWord_of_splitBlank (by simpa using hne) h w hw

/-- The items of a side come back from their text. -/
theorem items_spaced {xs : List String} (h : ∀ x ∈ xs, Text.IsWord x.toList) :
    items (Text.trimChars (' ' :: Text.spaced (xs.map String.toList))) = xs := by
  obtain rfl | ⟨xs, x, rfl⟩ := xs.eq_nil_or_concat'
  · rfl
  · have hxs : ∀ w ∈ xs.map String.toList, Text.IsWord w :=
      List.forall_mem_map.mpr fun y hy => h y (List.mem_append_left _ hy)
    have hx : Text.IsWord x.toList := h x (List.mem_append_right _ List.mem_cons_self)
    have hside : ' ' :: Text.spaced ((xs ++ [x]).map String.toList) =
        [' '] ++ (Text.spaced (xs.map String.toList) ++ x.toList ++ [' ']) := by
      simp
    have hspace : ∀ c ∈ [' '], Text.isBlank c = true := List.forall_mem_singleton.mpr (by decide)
    rw [hside, Text.trimChars_surrounded hspace (Text.trimmed_spaced hxs hx) hspace, items,
      if_neg (by simpa using fun _ => hx.nonempty), Text.splitBlank_spaced hxs hx]
    simp [List.map_map, Function.comp_def]

/-- The inputs with the options slot, if there is one. -/
def slots (e : StackEffect) : List String :=
  e.inputs ++ if e.hasOptions then ["[options:WordOptions]"] else []

theorem toList_toText (e : StackEffect) :
    e.toText.toList = '(' :: ((' ' :: Text.spaced (e.slots.map String.toList)) ++
      '-' :: '-' :: (' ' :: Text.spaced (e.outputs.map String.toList)) ++ [')']) := by
  have hjoin := Text.toList_join_spaced (["("] ++ e.slots ++ ["--"] ++ e.outputs) ")"
  rw [toText, show ["("] ++ e.inputs ++ (if e.hasOptions then ["[options:WordOptions]"] else []) =
    ["("] ++ e.slots from List.append_assoc .., hjoin]
  simp

namespace WellFormed

variable {e : StackEffect} (h : e.WellFormed)
include h

theorem isWord_slots : ∀ x ∈ e.slots, Text.IsWord x.toList := by
  refine List.forall_mem_append.mpr ⟨fun x hx => (h.inputs x hx).1.word, ?_⟩
  split
  case isTrue =>
    have hunblank : "[options:WordOptions]".toList.all (!Text.isBlank ·) = true := by decide
    exact List.forall_mem_singleton.mpr ⟨by decide, by simpa using hunblank⟩
  case isFalse => exact List.forall_mem_nil _

theorem noDashes_slots : ∀ x ∈ e.slots, ¬ ['-', '-'] <:+: x.toList := by
  refine List.forall_mem_append.mpr ⟨fun x hx => (h.inputs x hx).1.noDashes, ?_⟩
  split
  case isTrue => exact List.forall_mem_singleton.mpr (by decide)
  case isFalse => exact List.forall_mem_nil _

/-- The sides of the text of an effect. -/
theorem parts_toText : parts (Text.trimChars e.toText.toList) =
    some (Text.trimChars (' ' :: Text.spaced (e.slots.map String.toList)),
      Text.trimChars (' ' :: Text.spaced (e.outputs.map String.toList))) := by
  have hdashes : ∀ w ∈ e.slots.map String.toList, ¬ ['-', '-'] <:+: w :=
    List.forall_mem_map.mpr h.noDashes_slots
  have htrimmed : Text.Trimmed e.toText.toList := by
    rw [toList_toText]
    refine ⟨fun c hc => ?_, fun c hc => ?_⟩
    · cases hc
      rfl
    · rw [← List.cons_append, List.reverse_append] at hc
      cases hc
      rfl
  rw [Text.trimChars_of_trimmed htrimmed, toList_toText, parts_parenthesized, List.cons_append,
    splitDashes_cons (by simp), splitDashes_spaced hdashes]
  rfl

/-- The inputs are the items before the options slot. -/
theorem takeWhile_slots :
    (e.slots.takeWhile fun item => !Text.startsWith item "[") = e.inputs := by
  have hinputs : ∀ x ∈ e.inputs, (!Text.startsWith x "[") = true := fun x hx => by
    have hfirst := (h.inputs x hx).2
    rw [Bool.not_eq_true', Bool.eq_false_iff, ne_eq, Text.startsWith, List.isPrefixOf_iff_prefix]
    rintro ⟨more, hmore⟩
    rw [← hmore] at hfirst
    exact hfirst rfl
  rw [slots, List.takeWhile_append_of_pos hinputs]
  split
  case isTrue => exact List.append_nil _
  case isFalse => exact List.append_nil _

theorem find?_items : ((e.inputs ++ e.outputs).find? fun item => !isItem item) = none := by
  have hitem : ∀ x, IsFormed x → ¬ (!isItem x) = true := fun x hx => by
    rw [isItem_iff.mpr ⟨hx.noColonFirst, hx.noColonLast, hx.noDashes⟩]
    decide
  exact List.find?_eq_none.mpr (List.forall_mem_append.mpr
    ⟨fun x hx => hitem x (h.inputs x hx).1, fun x hx => hitem x (h.outputs x hx)⟩)

/-- An effect is read back from its text. -/
theorem ofText_toText : ofText e.toText = .ok e := by
  have hdrop : e.slots.drop e.inputs.length =
      if e.hasOptions then ["[options:WordOptions]"] else [] := List.drop_left
  have hwords : ∀ x ∈ e.outputs, Text.IsWord x.toList := fun x hx => (h.outputs x hx).word
  have hslot : isOptionsSlot "[options:WordOptions]" = true := by decide
  unfold ofText
  simp only [h.parts_toText, items_spaced h.isWord_slots, items_spaced hwords, h.takeWhile_slots,
    h.find?_items, hdrop]
  obtain ⟨inputs, hasOptions, outputs⟩ := e
  cases hasOptions with
  | false => rfl
  | true => simp [hslot]

end WellFormed

/-- What reading a text can give: the one kind of fault, or the items of two sides, where those
before the options slot and all outputs pass the check. -/
inductive ReadsAs (text : String) : Except Fault StackEffect → Prop
  | failed (note : String) : ReadsAs text (.error (.badStackEffect text note))
  | read {before after : List Char} {inputs : List String} (hasOptions : Bool)
    (hbefore : Text.Trimmed before) (hafter : Text.Trimmed after)
    (hinputs : inputs = (items before).takeWhile fun item => !Text.startsWith item "[")
    (hitems : ((inputs ++ items after).find? fun item => !isItem item) = none) :
    ReadsAs text (.ok ⟨inputs, hasOptions, items after⟩)

theorem readsAs_ofText (text : String) : ReadsAs text (ofText text) := by
  unfold ofText
  extract_lets fail
  split
  case h_1 => exact .failed _
  case h_2 before after hparts =>
    obtain ⟨hbefore, hafter⟩ := trimmed_of_parts hparts
    extract_lets inputs outputs positional check
    -- the check is made where there is no slot and where the last item is one
    have hcheck : ∀ hasOptions, ReadsAs text (check hasOptions) := by
      intro hasOptions
      unfold check
      split
      case h_1 => exact .failed _
      case h_2 hitems => exact .read hasOptions hbefore hafter rfl hitems
    split
    case h_1 => exact hcheck false
    case h_2 slot rest hrest =>
      split
      case isTrue => exact .failed _
      case isFalse =>
        split
        case isTrue => exact .failed _
        case isFalse => exact hcheck true

/-- What is read is well formed, whatever the text. -/
theorem wellFormed_of_ofText {text : String} {e : StackEffect} (h : ofText text = .ok e) :
    e.WellFormed := by
  have hreads := readsAs_ofText text
  rw [h] at hreads
  cases hreads with
  | @read before after inputs hasOptions hbefore hafter hinputs hitems =>
    have hformed : ∀ item ∈ inputs ++ items after, Text.IsWord item.toList → IsFormed item := by
      intro item hitem hword
      have hcheck := List.find?_eq_none.mp hitems item hitem
      obtain ⟨hfirst, hlast, hdashes⟩ := isItem_iff.mp (by simpa using hcheck)
      exact ⟨hword, hfirst, hlast, hdashes⟩
    refine ⟨fun item hitem => ?_, fun item hitem =>
      hformed item (List.mem_append_right _ hitem) (isWord_of_items hafter item hitem)⟩
    have hmem := hinputs ▸ hitem
    have hword := isWord_of_items hbefore item ((List.takeWhile_sublist _).subset hmem)
    refine ⟨hformed item (List.mem_append_left _ hitem) hword, fun hbracket => ?_⟩
    have hstart := List.mem_takeWhile_imp hmem
    obtain ⟨more, hmore⟩ := List.head?_eq_some_iff.mp hbracket
    simp [Text.startsWith, hmore] at hstart

/-- Stack effects and their texts: a well-formed effect is read back from its text, and a word
declared with it takes as many values as it has inputs; every text that is read gives a well-formed
effect, which its own text gives again; and a text that is not read gives a stack-effect fault that
holds it. -/
theorem stack_effects_read_back :
    (∀ e : StackEffect, e.WellFormed → ofText e.toText = .ok e ∧
      ∀ s : NativeSpec, s.effect = e.toText →
        s.word = .ok (.native
          { name := s.name, effect := some e.toText, description := s.description }
          e.inputs.length e.hasOptions s.waits s.code s.handlers)) ∧
    (∀ text e, ofText text = .ok e → e.WellFormed ∧ ofText e.toText = .ok e) ∧
    (∀ text f, ofText text = .error f → ∃ note, f = .badStackEffect text note) := by
  refine ⟨fun e h => ⟨h.ofText_toText, fun s hs => ?_⟩, fun text e h => ?_, fun text f h => ?_⟩
  · rw [NativeSpec.word, hs, h.ofText_toText]
    rfl
  · have hformed := wellFormed_of_ofText h
    exact ⟨hformed, hformed.ofText_toText⟩
  · have hreads := readsAs_ofText text
    rw [h] at hreads
    cases hreads with
    | failed note => exact ⟨note, rfl⟩

end StackEffect

end Wordstack
