import Wordstack.Config.Yaml
import Wordstack.Proofs.Binary64.Texts
import Wordstack.Proofs.Source.Carets

/-!
# Documents in block style

Maps and lists written one entry on a line, two columns further in on each level.

- **Documents** (`Block.Scalar`, `Block.Node`, `Block.Entries`, `Block.Items`): maps and lists that
  are written as blocks have something in them, by their type; empty ones are scalars.
- **Values** (`Block.Entries.fields`): what a document stands for.
- **Lines** (`Block.Document.lines`): the first key of an item stands behind the dash.
- **Texts** (`Filled`): blank lines and comments may stand between the lines.
- **Reading** (`Block.Scalar.yamlScalar_text`, `Block.keyed?_entryText`, `Filled.read`): scalars,
  entries and lines, each by itself.
-/

namespace Wordstack

namespace Block

/-! ## Documents -/

/-- A key: a letter, and letters, digits and underscores. -/
structure Key where
  first : Char
  more : List Char
  first_isAlpha : first.isAlpha = true
  more_isWord : ∀ c ∈ more, (c.isAlphanum || c == '_') = true

namespace Key

def text (k : Key) : List Char := k.first :: k.more

def name (k : Key) : String := String.ofList k.text

end Key

/-- How null is written: with a word, with a sign or not at all. -/
inductive NullText where
  | word
  | tilde
  | absent

/-- What stands on the line of its key. -/
inductive Scalar where
  | null (written : NullText)
  | bool (b : Bool)
  | int (n : Int) (isSafe : n.natAbs ≤ Binary64.safeLimit)
  | str (s : String) (onLine : ∀ c ∈ s.toList, endsLine c = false)
  | emptyMap
  | emptyList

mutual
/-- A value. -/
inductive Node where
  | scalar (x : Scalar)
  | map (entries : Entries)
  | list (items : Items)

/-- The entries of a map, at least one. -/
inductive Entries where
  | last (key : Key) (value : Node)
  | more (key : Key) (value : Node) (rest : Entries)

/-- The items of a list, at least one, each of them a map with entries. -/
inductive Items where
  | last (item : Entries)
  | more (item : Entries) (rest : Items)
end

/-- A document: a map, with or without entries. -/
inductive Document where
  | empty
  | block (entries : Entries)

/-! ## Values -/

/-- The value of a scalar. -/
def Scalar.toJson : Scalar → Json
  | null _ => .null
  | bool b => .bool b
  | int n _ => .int n
  | str s _ => .str s
  | emptyMap => .obj []
  | emptyList => .arr []

mutual
/-- The value of a node. -/
def Node.toJson : Node → Json
  | .scalar x => x.toJson
  | .map entries => .obj entries.fields
  | .list items => .arr items.values

/-- Keys and values in order. -/
def Entries.fields : Entries → List (String × Json)
  | .last key value => [(key.name, value.toJson)]
  | .more key value rest => (key.name, value.toJson) :: rest.fields

/-- The maps of a list in order. -/
def Items.values : Items → List Json
  | .last item => [.obj item.fields]
  | .more item rest => .obj item.fields :: rest.values
end

/-- Keys and values of a document in order. -/
def Document.fields : Document → List (String × Json)
  | empty => []
  | block entries => entries.fields

mutual
/-- No map in the value has a key twice. -/
def Node.Distinct : Node → Prop
  | .scalar _ => True
  | .map entries => entries.Distinct
  | .list items => items.Distinct

/-- Neither the map nor one inside it has a key twice. -/
def Entries.Distinct : Entries → Prop
  | .last _ value => value.Distinct
  | .more key value rest =>
    key.name ∉ rest.fields.map (·.1) ∧ value.Distinct ∧ rest.Distinct

/-- No map in the list has a key twice. -/
def Items.Distinct : Items → Prop
  | .last item => item.Distinct
  | .more item rest => item.Distinct ∧ rest.Distinct
end

/-- No map in the document has a key twice. -/
def Document.Distinct : Document → Prop
  | empty => True
  | block entries => entries.Distinct

/-! ## Lines -/

/-- The text of a scalar. -/
def Scalar.text : Scalar → List Char
  | null .word => ['n', 'u', 'l', 'l']
  | null .tilde => ['~']
  | null .absent => []
  | bool true => ['t', 'r', 'u', 'e']
  | bool false => ['f', 'a', 'l', 's', 'e']
  | int n _ => (toString n).toList
  | str s _ => '"' :: (s.toList ++ ['"'])
  | emptyMap => ['\x7b', '\x7d']
  | emptyList => ['[', ']']

/-- What stands on the line of its key. -/
def Node.ownText : Node → List Char
  | .scalar x => x.text
  | .map _ | .list _ => []

/-- The line of a key. -/
def entryText (key : Key) (value : Node) : List Char :=
  key.text ++ ':' :: if value.ownText.isEmpty then [] else ' ' :: value.ownText

/-- The line of the first key. -/
def Entries.head : Entries → List Char
  | .last key value | .more key value _ => entryText key value

mutual
/-- The lines below that of a key that stands in column `n`. -/
def Node.linesUnder (n : Nat) : Node → List YamlLine
  | .scalar _ => []
  | .map entries => ⟨n + 2, entries.head⟩ :: entries.tail (n + 2)
  | .list items => items.lines (n + 2)

/-- The lines after the first one of a map whose keys stand in column `n`. -/
def Entries.tail (n : Nat) : Entries → List YamlLine
  | .last _ value => value.linesUnder n
  | .more _ value rest => value.linesUnder n ++ ⟨n, rest.head⟩ :: rest.tail n

/-- The lines of a list whose dashes stand in column `n`. -/
def Items.lines (n : Nat) : Items → List YamlLine
  | .last item => ⟨n, '-' :: ' ' :: item.head⟩ :: item.tail (n + 2)
  | .more item rest => ⟨n, '-' :: ' ' :: item.head⟩ :: (item.tail (n + 2) ++ rest.lines n)
end

/-- The lines of a document. -/
def Document.lines : Document → List YamlLine
  | empty => []
  | block entries => ⟨0, entries.head⟩ :: entries.tail 0

end Block

/-! ## Texts -/

/-- The characters of a line. -/
def YamlLine.chars (l : YamlLine) : List Char := List.replicate l.indent ' ' ++ l.text

/-- Nothing but blanks stands on a line, or before the sign of a comment. -/
def IsFiller (cs : List Char) : Prop :=
  '\n' ∉ cs ∧ ∀ c ∈ (cs.dropWhile Text.isBlank).head?, c = '#'

/-- The lines of a text are these, with blank lines and comments between them. -/
inductive Filled : List YamlLine → List (List Char) → Prop where
  | nil : Filled [] []
  | line (l : YamlLine) {ls : List YamlLine} {texts : List (List Char)} (h : Filled ls texts) :
      Filled (l :: ls) (l.chars :: texts)
  | filler {cs : List Char} {ls : List YamlLine} {texts : List (List Char)} (hc : IsFiller cs)
      (h : Filled ls texts) : Filled ls (cs :: texts)

/-! ## Scalars -/

/-- A safe integer in digits is the number that it stands for. -/
theorem Binary64.ofDecimal_safe {n : Nat} (hn : n ≤ safeLimit) {negative : Bool}
    (hzero : n = 0 → negative = false) :
    ofDecimal negative n 0 = ofRatio negative (n * one) 1 := by
  have hlimit : n ≤ 2 ^ 53 - 1 := safeLimit_eq ▸ hn
  unfold ofDecimal
  dsimp only
  by_cases h0 : n = 0
  · rw [if_pos (.inl h0), h0, hzero h0, Nat.zero_mul]
    decide
  · have hlength : (Nat.toDigits 10 n).length ≤ 16 := by
      by_contra hlong
      have := ten_pow_le h0 (Nat.lt_of_not_le hlong)
      omega
    rw [if_neg (by omega), if_neg (by omega), if_pos (Int.le_refl 0)]
    simp

/-- Digits, with or without a minus before them, are a number. -/
theorem plainNumber?_digits (n : Nat) (negative : Bool) :
    plainNumber? ((if negative then ['-'] else []) ++ Nat.toDigits 10 n) =
      some (.ofDecimal negative n 0) := by
  have hdigits : ∀ c ∈ Nat.toDigits 10 n, c.isDigit = true := fun c hc =>
    Nat.isDigit_of_mem_toDigits (by decide) (by decide) hc
  have hnone : Stops Char.isDigit [] := by simp [Stops]
  have hne : Nat.toDigits 10 n ≠ [] := Nat.toDigits_ne_nil
  have hread := Binary64.readDecimal_whole negative hdigits hne hnone (by simp) rfl
  have htake := takeWhile_append_of_stops hdigits hnone
  have hdrop := dropWhile_append_of_stops hdigits hnone
  rw [List.append_nil] at hread htake hdrop
  rw [Text.digitsToNat_toDigits] at hread
  cases negative with
  | true =>
    simp only [if_true, List.cons_append, List.nil_append, plainNumber?, htake, hdrop]
    rw [if_pos (by simp [hne]), hread]
  | false =>
    rw [if_neg Bool.false_ne_true, List.nil_append]
    unfold plainNumber?
    split
    rename_i sign digits hsign
    split at hsign
    · rename_i r hr
      exact absurd (by rw [hr]; rfl) (Text.head?_toDigits_ne n)
    · cases hsign
      simp only [htake, hdrop]
      rw [if_pos (by simp [hne]), hread]

theorem plainNumber?_toString {n : Int} (h : n.natAbs ≤ Binary64.safeLimit) :
    plainNumber? (toString n).toList = some (.ofInt n) := by
  have hdigits := plainNumber?_digits n.natAbs (decide (n < 0))
  have hzero : n.natAbs = 0 → decide (n < 0) = false := by simp; omega
  rw [Binary64.ofDecimal_safe h hzero] at hdigits
  rw [Text.toList_toString, Binary64.ofInt, ← hdigits]
  by_cases hn : n < 0 <;> simp [hn]

/-- A text that is no word of its own is a number or a quoted text, if it can be read as one. -/
theorem yamlScalar_eq {cs : List Char} (h : ∀ c ∈ cs.head?, c ∉ ['t', 'f', 'n', '~', '[', '\x7b']) :
    yamlScalar cs = match plainNumber? cs, unquoted? cs with
      | some x, _ => .num x
      | none, some inner => .str (String.ofList inner)
      | none, none => .str (String.ofList cs) := by
  have hne : ∀ c more, c ∈ ['t', 'f', 'n', '~', '[', '\x7b'] →
      String.ofList cs ≠ String.ofList (c :: more) := by
    intro c more hc heq
    rw [String.ofList_inj] at heq
    exact h c (by rw [heq]; rfl) hc
  unfold yamlScalar
  split
  · exact absurd ‹_› (hne 't' ['r', 'u', 'e'] (by decide))
  · exact absurd ‹_› (hne 'f' ['a', 'l', 's', 'e'] (by decide))
  · exact absurd ‹_› (hne 'n' ['u', 'l', 'l'] (by decide))
  · exact absurd ‹_› (hne '~' [] (by decide))
  · exact absurd ‹_› (hne '[' [']'] (by decide))
  · exact absurd ‹_› (hne '\x7b' ['\x7d'] (by decide))
  · rfl

theorem isDecimalChar_of_mem {n : Int} {c : Char} (h : c ∈ (toString n).toList) :
    Binary64.isDecimalChar c = true := by
  rw [Text.toList_toString] at h
  split at h
  · obtain rfl | h := List.mem_cons.mp h
    · rfl
    · exact Binary64.isDecimalChar_of_isDigit (Binary64.isDigit_of_mem h)
  · exact Binary64.isDecimalChar_of_isDigit (Binary64.isDigit_of_mem h)

theorem endsLine_of_isDecimalChar {c : Char} (h : Binary64.isDecimalChar c = true) :
    endsLine c = false := by
  by_contra hends
  simp only [endsLine, Bool.not_eq_false, Bool.or_eq_true, beq_iff_eq] at hends
  obtain ((rfl | rfl) | rfl) | rfl := hends <;> exact absurd h (by decide)

namespace Block.Scalar

theorem trimmed_text (x : Scalar) : Text.Trimmed x.text := by
  cases x with
  | null written => cases written <;> exact ⟨by decide, by decide⟩
  | bool b => cases b <;> exact ⟨by decide, by decide⟩
  | int n isSafe =>
    exact Text.trimmed_of_forall fun c hc =>
      Binary64.isBlank_of_isDecimalChar (isDecimalChar_of_mem hc)
  | str s onLine => exact ⟨by simp [text, Stops]; decide, by simp [text, Stops]; decide⟩
  | _ => exact ⟨by decide, by decide⟩

theorem text_onLine (x : Scalar) : ∀ c ∈ x.text, endsLine c = false := by
  cases x with
  | null written => cases written <;> simp [text, endsLine]
  | bool b => cases b <;> simp [text, endsLine]
  | int n isSafe =>
    exact fun c hc => endsLine_of_isDecimalChar (isDecimalChar_of_mem hc)
  | str s onLine =>
    refine List.forall_mem_cons.mpr ⟨by decide, List.forall_mem_append.mpr ⟨onLine, ?_⟩⟩
    simp [endsLine]
  | _ => simp [text, endsLine]

/-- A scalar reads back. -/
theorem yamlScalar_text (x : Scalar) (h : x.text ≠ []) : yamlScalar x.text = x.toJson := by
  cases x with
  | null written =>
    cases written with
    | absent => exact absurd rfl h
    | _ => rfl
  | bool b => cases b <;> rfl
  | int n isSafe =>
    have hhead : ∀ c ∈ (toString n).toList.head?, c ∉ ['t', 'f', 'n', '~', '[', '\x7b'] := by
      intro c hc hword
      have hdecimal := isDecimalChar_of_mem (List.mem_of_mem_head? hc)
      have hwords : ∀ d ∈ ['t', 'f', 'n', '~', '[', '\x7b'], Binary64.isDecimalChar d = false := by
        simp [Binary64.isDecimalChar]
      rw [hwords c hword] at hdecimal
      cases hdecimal
    rw [text, yamlScalar_eq hhead, plainNumber?_toString isSafe]
    rfl
  | str s onLine =>
    have hnumber : plainNumber? ('"' :: (s.toList ++ ['"'])) = none := rfl
    have hquoted : unquoted? ('"' :: (s.toList ++ ['"'])) = some s.toList := by
      have hlast : ('"' :: (s.toList ++ ['"'])).getLast? = some '"' :=
        List.getLast?_concat (l := '"' :: s.toList)
      unfold unquoted?
      rw [hlast]
      simp
    rw [text, yamlScalar_eq (by simp), hnumber, hquoted]
    simp [toJson]
  | _ => rfl

/-- Only null is written as nothing. -/
theorem toJson_of_text_eq_nil (x : Scalar) (h : x.text = []) : x.toJson = .null := by
  cases x with
  | null written => rfl
  | bool b => cases b <;> exact absurd h (by decide)
  | int n isSafe =>
    have hdigits : (toString n).toList ≠ [] := by
      rw [Text.toList_toString]
      split
      · exact List.cons_ne_nil _ _
      · exact Nat.toDigits_ne_nil
    exact absurd h hdigits
  | str s onLine => exact absurd h (List.cons_ne_nil _ _)
  | _ => exact absurd h (List.cons_ne_nil _ _)

end Block.Scalar

/-! ## Entries -/

namespace Block

variable {key : Key} {value : Node}

theorem visible_of_isAlphanum {c : Char} (h : c.isAlphanum = true) :
    0x21 ≤ c.toNat ∧ c.toNat ≤ 0x7E := by
  have hspan : ∀ low high : Char, 0x21 ≤ low.toNat → high.toNat ≤ 0x7E → low.val ≤ c.val →
      c.val ≤ high.val → 0x21 ≤ c.toNat ∧ c.toNat ≤ 0x7E := fun _ _ hl hh hlow hhigh =>
    ⟨Nat.le_trans hl (UInt32.le_iff_toNat_le.mp hlow),
      Nat.le_trans (UInt32.le_iff_toNat_le.mp hhigh) hh⟩
  obtain h | h := Bool.or_eq_true_iff.mp h
  · obtain h | h := Bool.or_eq_true_iff.mp h
    · obtain ⟨hlow, hhigh⟩ := of_decide_eq_true h
      exact hspan 'A' 'Z' (by decide) (by decide) hlow hhigh
    · obtain ⟨hlow, hhigh⟩ := Bool.and_eq_true_iff.mp h
      exact hspan 'a' 'z' (by decide) (by decide) (of_decide_eq_true hlow) (of_decide_eq_true hhigh)
  · obtain ⟨hlow, hhigh⟩ := Bool.and_eq_true_iff.mp h
    exact hspan '0' '9' (by decide) (by decide) (of_decide_eq_true hlow) (of_decide_eq_true hhigh)

theorem Key.visible (key : Key) {c : Char} (h : c ∈ key.text) :
    0x21 ≤ c.toNat ∧ c.toNat ≤ 0x7E ∧ c ≠ ':' := by
  have hword : (c.isAlphanum || c == '_') = true := by
    obtain rfl | h := List.mem_cons.mp h
    · simp [Char.isAlphanum, key.first_isAlpha]
    · exact key.more_isWord c h
  have hrange : 0x21 ≤ c.toNat ∧ c.toNat ≤ 0x7E := by
    obtain hword | hword := Bool.or_eq_true_iff.mp hword
    · exact visible_of_isAlphanum hword
    · exact beq_iff_eq.mp hword ▸ ⟨by decide, by decide⟩
  refine ⟨hrange.1, hrange.2, ?_⟩
  rintro rfl
  exact absurd hword (by decide)

theorem Key.first_ne (key : Key) {c : Char} (hc : c.isAlpha = false) : key.first ≠ c := by
  rintro rfl
  rw [key.first_isAlpha] at hc
  cases hc

theorem Key.unblank (key : Key) : ∀ c ∈ key.text, Text.isBlank c = false := fun _ hc =>
  Text.isBlank_of_visible (key.visible hc).1 (key.visible hc).2.1

theorem Node.trimmed_ownText (value : Node) : Text.Trimmed value.ownText := by
  cases value with
  | scalar x => exact x.trimmed_text
  | _ => exact Text.trimmed_of_forall (List.forall_mem_nil _)

theorem Node.ownText_onLine (value : Node) : ∀ c ∈ value.ownText, endsLine c = false := by
  cases value with
  | scalar x => exact x.text_onLine
  | _ => simp [ownText]

/-- The line of an entry is read as its key and what stands behind it. -/
theorem keyed?_entryText (key : Key) (value : Node) :
    keyed? (entryText key value) = some (key.name, value.ownText) := by
  have hkey : ∀ c ∈ key.text, (c != ':') = true := fun c hc => by simpa using (key.visible hc).2.2
  have hcolon : ∀ cs, Stops (· != ':') (':' :: cs) := fun cs => by simp [Stops]
  have hname : String.ofList (Text.trimChars key.text) = key.name := by
    rw [Text.trimChars_of_trimmed (Text.trimmed_of_forall key.unblank)]
    rfl
  have hfirst : (Text.isBlank key.first || key.first == ':' || key.first == '#' ||
      key.first == '-') = false := by
    rw [key.unblank _ List.mem_cons_self]
    simp [key.first_ne (c := ':') rfl, key.first_ne (c := '#') rfl, key.first_ne (c := '-') rfl]
  unfold keyed? entryText
  rw [show key.text = key.first :: key.more from rfl, List.cons_append]
  dsimp only
  rw [if_neg (by rw [hfirst]; exact Bool.false_ne_true), ← List.cons_append,
    show key.first :: key.more = key.text from rfl, takeWhile_append_of_stops hkey (hcolon _),
    dropWhile_append_of_stops hkey (hcolon _), hname]
  by_cases hempty : value.ownText = []
  · rw [hempty]
    rfl
  · have htrim := value.trimmed_ownText
    rw [if_neg (by simpa using hempty)]
    dsimp only
    rw [dropWhile_of_stops htrim.first, Text.trimChars_of_trimmed htrim, if_pos]
    have hend : value.ownText.any endsLine = false := by
      simpa using value.ownText_onLine
    rw [hend]
    decide

theorem trimmed_append {front back : List Char} (hfront : front ≠ [])
    (hfirst : Stops Text.isBlank front) (hback : back ≠ [])
    (hlast : Stops Text.isBlank back.reverse) : Text.Trimmed (front ++ back) := by
  refine ⟨fun c hc => hfirst c ?_, fun c hc => hlast c ?_⟩
  · rwa [List.head?_append_of_ne_nil _ hfront] at hc
  · rwa [List.reverse_append, List.head?_append_of_ne_nil _ (by simpa using hback)] at hc

theorem trimmed_entryText (key : Key) (value : Node) : Text.Trimmed (entryText key value) := by
  have hfirst : Stops Text.isBlank key.text := fun c hc =>
    key.unblank c (List.mem_of_mem_head? hc)
  have hne : key.text ≠ [] := List.cons_ne_nil _ _
  unfold entryText
  by_cases hempty : value.ownText = []
  · rw [hempty]
    exact trimmed_append hne hfirst (List.cons_ne_nil _ _) (by decide)
  · rw [if_neg (by simpa using hempty)]
    refine trimmed_append hne hfirst (List.cons_ne_nil _ _) fun c hc => ?_
    rw [show ':' :: ' ' :: value.ownText = [':', ' '] ++ value.ownText from rfl,
      List.reverse_append, List.head?_append_of_ne_nil _ (by simpa using hempty)] at hc
    exact value.trimmed_ownText.last c hc

theorem unbroken_entryText (key : Key) (value : Node) : '\n' ∉ entryText key value := by
  have hkey : '\n' ∉ key.text := fun h => absurd (key.visible h).1 (by decide)
  have hown : '\n' ∉ value.ownText := fun h => absurd (value.ownText_onLine _ h) (by decide)
  unfold entryText
  split <;> simp [hkey, hown]

end Block

/-! ## Whole lines -/

/-- A line that is read as it is. -/
structure YamlLine.Plain (l : YamlLine) : Prop where
  trimmed : Text.Trimmed l.text
  nonempty : l.text ≠ []
  uncommented : l.text.head? ≠ some '#'
  unbroken : '\n' ∉ l.text

theorem Text.units_spaces (n : Nat) : units (List.replicate n ' ') = n := by
  induction n with
  | zero => rfl
  | succ n ih =>
    rw [List.replicate_succ, units_cons, ih, show width ' ' = 1 from rfl, Nat.add_comm]

/-- A line is read as its indentation and its text. -/
theorem YamlLine.Plain.read {l : YamlLine} (h : l.Plain) : YamlLine.read? l.chars = some l := by
  have hspaces : ∀ c ∈ List.replicate l.indent ' ', Text.isBlank c = true := fun c hc =>
    List.eq_of_mem_replicate hc ▸ rfl
  have htext : Text.trimChars l.chars = l.text := by
    have := Text.trimChars_surrounded hspaces h.trimmed (List.forall_mem_nil _)
    rwa [List.append_nil] at this
  have hindent : Text.units (l.chars.takeWhile Text.isBlank) = l.indent := by
    rw [chars, takeWhile_append_of_stops hspaces h.trimmed.first, Text.units_spaces]
  unfold read?
  rw [htext, hindent]
  split
  · exact absurd ‹l.text = []› h.nonempty
  · rename_i more hmore
    exact absurd (by rw [hmore]; rfl) h.uncommented
  · rfl

theorem read?_of_isFiller {cs : List Char} (h : IsFiller cs) : YamlLine.read? cs = none := by
  have hhead : ∀ c ∈ (Text.trimChars cs).head?, c = '#' := by
    intro c hc
    exact h.2 c (Text.head?_trimChars hc)
  unfold YamlLine.read?
  cases htrim : Text.trimChars cs with
  | nil => rfl
  | cons c more =>
    rw [htrim] at hhead
    obtain rfl : c = '#' := hhead c rfl
    rfl

theorem splitCharsAt_append {sep : Char} {cs more : List Char} (h : sep ∉ cs) :
    Text.splitCharsAt sep (cs ++ sep :: more) = cs :: Text.splitCharsAt sep more := by
  induction cs with
  | nil =>
    obtain ⟨parts, hparts⟩ := exists_splitCharsAt sep more
    rw [List.nil_append, Text.splitCharsAt, hparts]
    simp
  | cons c cs ih =>
    rw [List.mem_cons, not_or] at h
    rw [List.cons_append, Text.splitCharsAt, ih h.2]
    simp [Ne.symm h.1]

theorem splitCharsAt_of_notMem {sep : Char} {cs : List Char} (h : sep ∉ cs) :
    Text.splitCharsAt sep cs = [cs] := by
  induction cs with
  | nil => rfl
  | cons c cs ih =>
    rw [List.mem_cons, not_or] at h
    rw [Text.splitCharsAt, ih h.2]
    simp [Ne.symm h.1]

/-- Lines that were joined are split again. -/
theorem splitCharsAt_join {cs : List Char} {texts : List (List Char)}
    (h : ∀ part ∈ cs :: texts, '\n' ∉ part) :
    Text.splitCharsAt '\n' (Text.join "\n" ((cs :: texts).map String.ofList)).toList =
      cs :: texts := by
  induction texts generalizing cs with
  | nil => simpa [Text.join] using splitCharsAt_of_notMem (h cs List.mem_cons_self)
  | cons next texts ih =>
    obtain ⟨hcs, hrest⟩ := List.forall_mem_cons.mp h
    have hjoin : (Text.join "\n" ((cs :: next :: texts).map String.ofList)).toList =
        cs ++ '\n' :: (Text.join "\n" ((next :: texts).map String.ofList)).toList := by
      simp [Text.join]
    rw [hjoin, splitCharsAt_append hcs, ih hrest]

theorem plain_entry (n : Nat) (key : Block.Key) (value : Block.Node) :
    (⟨n, Block.entryText key value⟩ : YamlLine).Plain where
  trimmed := Block.trimmed_entryText key value
  nonempty := List.cons_ne_nil _ _
  uncommented := fun h => key.first_ne (c := '#') rfl (Option.some.inj h)
  unbroken := Block.unbroken_entryText key value

theorem plain_item (n : Nat) (key : Block.Key) (value : Block.Node) :
    (⟨n, '-' :: ' ' :: Block.entryText key value⟩ : YamlLine).Plain where
  trimmed := by
    have hdash : Stops Text.isBlank ['-', ' '] := by decide
    exact Block.trimmed_append (List.cons_ne_nil _ _) hdash (List.cons_ne_nil _ _)
      (Block.trimmed_entryText key value).last
  nonempty := List.cons_ne_nil _ _
  uncommented := by simp
  unbroken := by simpa using Block.unbroken_entryText key value

theorem plain_head (entries : Block.Entries) (n : Nat) : (⟨n, entries.head⟩ : YamlLine).Plain ∧
    (⟨n, '-' :: ' ' :: entries.head⟩ : YamlLine).Plain := by
  cases entries with
  | last key value => exact ⟨plain_entry n key value, plain_item n key value⟩
  | more key value rest => exact ⟨plain_entry n key value, plain_item n key value⟩

mutual
theorem plain_linesUnder (value : Block.Node) (n : Nat) : ∀ l ∈ value.linesUnder n, l.Plain := by
  match value with
  | .scalar _ => exact List.forall_mem_nil _
  | .map entries =>
    exact List.forall_mem_cons.mpr ⟨(plain_head entries _).1, plain_tail entries _⟩
  | .list items => exact plain_lines items _

theorem plain_tail (entries : Block.Entries) (n : Nat) : ∀ l ∈ entries.tail n, l.Plain := by
  match entries with
  | .last _ value => exact plain_linesUnder value n
  | .more _ value rest =>
    exact List.forall_mem_append.mpr ⟨plain_linesUnder value n,
      List.forall_mem_cons.mpr ⟨(plain_head rest n).1, plain_tail rest n⟩⟩

theorem plain_lines (items : Block.Items) (n : Nat) : ∀ l ∈ items.lines n, l.Plain := by
  match items with
  | .last item =>
    exact List.forall_mem_cons.mpr ⟨(plain_head item n).2, plain_tail item _⟩
  | .more item rest =>
    exact List.forall_mem_cons.mpr ⟨(plain_head item n).2,
      List.forall_mem_append.mpr ⟨plain_tail item _, plain_lines rest n⟩⟩
end

theorem plain_document (document : Block.Document) : ∀ l ∈ document.lines, l.Plain := by
  cases document with
  | empty => exact List.forall_mem_nil _
  | block entries =>
    exact List.forall_mem_cons.mpr ⟨(plain_head entries 0).1, plain_tail entries 0⟩

namespace Filled

variable {ls : List YamlLine} {texts : List (List Char)}

theorem unbroken (h : Filled ls texts) (hplain : ∀ l ∈ ls, l.Plain) :
    ∀ cs ∈ texts, '\n' ∉ cs := by
  induction h with
  | nil => exact List.forall_mem_nil _
  | line l h ih =>
    obtain ⟨hl, hls⟩ := List.forall_mem_cons.mp hplain
    refine List.forall_mem_cons.mpr ⟨?_, ih hls⟩
    simp [YamlLine.chars, hl.unbroken]
  | filler hc h ih => exact List.forall_mem_cons.mpr ⟨hc.1, ih hplain⟩

theorem filterMap_read (h : Filled ls texts) (hplain : ∀ l ∈ ls, l.Plain) :
    texts.filterMap YamlLine.read? = ls := by
  induction h with
  | nil => rfl
  | line l h ih =>
    obtain ⟨hl, hls⟩ := List.forall_mem_cons.mp hplain
    rw [List.filterMap_cons_some hl.read, ih hls]
  | filler hc h ih => rw [List.filterMap_cons_none (read?_of_isFiller hc), ih hplain]

/-- The lines of a text are read, and what is between them is passed over. -/
theorem read (h : Filled ls texts) (hplain : ∀ l ∈ ls, l.Plain) :
    (Text.splitCharsAt '\n' (Text.join "\n" (texts.map String.ofList)).toList).filterMap
      YamlLine.read? = ls := by
  cases texts with
  | nil =>
    cases h
    rfl
  | cons cs texts => rw [splitCharsAt_join (h.unbroken hplain), h.filterMap_read hplain]

end Filled

end Wordstack
