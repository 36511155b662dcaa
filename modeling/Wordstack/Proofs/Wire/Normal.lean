import Wordstack.Proofs.Wire.Grammar
import Wordstack.Proofs.Wire.RoundTrip

/-!
# Requests in normal form

A request is read from a body, and what was read is the body of a request again. Reading it a second
time gives the same request, with the same values on its stack, however the first body spells them.

- **Stacks** (`Wire.normalStack_ok`): the normal form of a stack holds the same values and is its
  own normal form.
- **Names** (`Wire.names_strs`, `Wire.of_names`).
- **Requests** (`Wire.requests_are_read_in_normal_form`).
-/

namespace Wordstack

namespace Wire

/-- Values that were found in a stack are found again in its normal form. -/
theorem normalStack_ok {x : Option Json} {js : List Json} (h : normalStack x = .ok js) :
    ∃ vs, decodeStack "stack" x = .ok vs ∧ (∀ path, decodeStack path (some (.arr js)) = .ok vs) ∧
      normalStack (some (.arr js)) = .ok js := by
  obtain ⟨vs, hvs, hjs⟩ := Except.of_bind_ok h
  obtain ⟨js', hjs', back⟩ := decodeStack_encodeStack hvs
  obtain rfl : js = js' := Except.ok.inj (hjs.symm.trans hjs')
  refine ⟨vs, hvs, back, ?_⟩
  rw [normalStack, back "stack"]
  exact hjs

theorem of_expectString {path : String} {x : Option Json} {s : String}
    (h : expectString path x = .ok s) : x = some (.str s) := by
  unfold expectString at h
  split at h
  · rw [Except.ok.inj h]
  · cases h

theorem names_strs (i : Nat) (words : List String) : names i (words.map .str) = .ok words := by
  induction words generalizing i with
  | nil => rfl
  | cons word words ih =>
    rw [List.map_cons, names, ih]
    rfl

theorem of_names {i : Nat} {xs : List Json} {words : List String} (h : names i xs = .ok words) :
    xs = words.map .str := by
  induction xs generalizing i words with
  | nil => rw [← Except.ok.inj h, List.map_nil]
  | cons x xs ih =>
    obtain ⟨s, hs, h⟩ := Except.of_bind_ok h
    obtain ⟨rest, hrest, h⟩ := Except.of_bind_ok h
    obtain rfl : s :: rest = words := Except.ok.inj h
    rw [Option.some.inj (of_expectString hs), ih hrest, List.map_cons]

/-- The names in a request to run words in sequence, which may be left out. -/
def wordNames : Option Json → Except Fault (List String)
  | none | some .null => .ok []
  | some (.arr items) => names 0 items
  | some _ => expected "word_names" "an array"

theorem readSequenceRequest_eq (body : Option Json) : readSequenceRequest body = do
    let fields ← bodyFields body
    let words ← wordNames (fields.lookup "word_names")
    let stack ← normalStack (fields.lookup "stack")
    return ⟨words, stack⟩ := by
  unfold readSequenceRequest
  congr
  funext fields
  generalize fields.lookup "word_names" = x
  match x with
  | none | some .null | some (.arr _) | some (.bool _) | some (.num _) | some (.str _)
  | some (.obj _) => rfl

theorem of_wordNames {x : Option Json} {words : List String} (h : wordNames x = .ok words) :
    IsAbsent x ∧ words = [] ∨ x = some (Json.strs words) := by
  match x with
  | none => exact .inl ⟨.inl rfl, (Except.ok.inj h).symm⟩
  | some .null => exact .inl ⟨.inr rfl, (Except.ok.inj h).symm⟩
  | some (.arr items) => exact .inr (congrArg (some ∘ Json.arr) (of_names h))
  | some (.bool _) | some (.num _) | some (.str _) | some (.obj _) => cases h

/-- What is read from a body as a request names the same words and has the same values on its stack,
and it is what is read when it is the body itself. -/
theorem requests_are_read_in_normal_form (body : Option Json) :
    (∀ q, readWordRequest body = .ok q → ∃ fields vs, bodyFields body = .ok fields ∧
      fields.lookup "word_name" = some (.str q.word) ∧
      decodeStack "stack" (fields.lookup "stack") = .ok vs ∧
      (∀ path, decodeStack path (some (.arr q.stack)) = .ok vs) ∧
      readWordRequest (some (writeWordRequest q.word q.stack)) = .ok q) ∧
    ∀ q, readSequenceRequest body = .ok q → ∃ fields vs, bodyFields body = .ok fields ∧
      (IsAbsent (fields.lookup "word_names") ∧ q.words = [] ∨
        fields.lookup "word_names" = some (Json.strs q.words)) ∧
      decodeStack "stack" (fields.lookup "stack") = .ok vs ∧
      (∀ path, decodeStack path (some (.arr q.stack)) = .ok vs) ∧
      readSequenceRequest (some (writeSequenceRequest q.words q.stack)) = .ok q := by
  constructor
  · intro q h
    obtain ⟨fields, hfields, h⟩ := Except.of_bind_ok h
    obtain ⟨word, hword, h⟩ := Except.of_bind_ok h
    split at h
    · cases h
    · rename_i hne
      obtain ⟨js, hjs, h⟩ := Except.of_bind_ok h
      obtain rfl : ⟨word, js⟩ = q := Except.ok.inj h
      obtain ⟨vs, hvs, back, hnormal⟩ := normalStack_ok hjs
      refine ⟨fields, vs, hfields, of_expectString hword, hvs, back, ?_⟩
      have hagain : readWordRequest (some (writeWordRequest word js)) =
          if word.isEmpty then .error (.wireFormat "word_name: must not be empty")
          else do return ⟨word, ← normalStack (some (.arr js))⟩ := rfl
      rw [hagain, if_neg hne, hnormal]
      rfl
  · intro q h
    rw [readSequenceRequest_eq] at h
    obtain ⟨fields, hfields, h⟩ := Except.of_bind_ok h
    obtain ⟨words, hwords, h⟩ := Except.of_bind_ok h
    obtain ⟨js, hjs, h⟩ := Except.of_bind_ok h
    obtain rfl : ⟨words, js⟩ = q := Except.ok.inj h
    obtain ⟨vs, hvs, back, hnormal⟩ := normalStack_ok hjs
    refine ⟨fields, vs, hfields, of_wordNames hwords, hvs, back, ?_⟩
    have hagain : readSequenceRequest (some (writeSequenceRequest words js)) = do
        let words ← names 0 (words.map .str)
        let stack ← normalStack (some (.arr js))
        return ⟨words, stack⟩ := rfl
    rw [hagain, names_strs, hnormal]
    rfl

/-- A stack that no encoding gives: an integer as a number and one with zeros before it, a key that
stands twice, a number without a text of its own, and an array that lists no items. -/
def looseStack (x : Binary64) : Json :=
  .arr [
    .obj [("int_value", .num x)],
    .obj [("record_value", .obj [("fields", .arr [
      .obj [("key", .str "a"), ("value", .obj [("null_value", .null)])],
      .obj [("key", .str "b"), ("value", .obj [("float_value", .str "-Infinity")])],
      .obj [("key", .str "a"), ("value", .obj [("int_value", .str "-007")])]])])],
    .obj [("array_value", .obj [])]]

/-- The values in it. -/
def looseValues (n : Int) : List Val :=
  [.int n, .record [("a", .int (-7)), ("b", .float (.infinite true))], .array []]

theorem decodeStack_looseStack {x : Binary64} {n : Int} (h : x.toSafeInt? = some n)
    (path : String) : decodeStack path (some (looseStack x)) = .ok (looseValues n) := by
  have hx : ∀ path, decode path (.obj [("int_value", .num x)]) = .ok (.int n) := by
    intro path
    change decodeInt path (.num x) = _
    rw [decodeInt, h]
  rw [looseStack, decodeStack, decodeItems, hx]
  rfl

theorem requests_are_read_in_normal_form_loose :
    ∃ x q r, readWordRequest (some (.obj [("word_name", .str "DUP"), ("stack", looseStack x)])) =
        .ok q ∧
      readSequenceRequest (some (.obj [("stack", looseStack x)])) = .ok r ∧
      decodeStack "stack" (some (.arr q.stack)) = .ok (looseValues 5) ∧
      readWordRequest (some (writeWordRequest q.word q.stack)) = .ok q ∧
      decodeStack "stack" (some (.arr r.stack)) = .ok (looseValues 5) ∧
      readSequenceRequest (some (writeSequenceRequest r.words r.stack)) = .ok r := by
  have hx : (Binary64.ofInt 5).toSafeInt? = some 5 := by decide +kernel
  generalize Binary64.ofInt 5 = x at hx
  have hstack := decodeStack_looseStack hx "stack"
  obtain ⟨js, hjs⟩ : ∃ js, normalStack (some (looseStack x)) = .ok js := by
    rw [normalStack, hstack]
    exact ⟨_, rfl⟩
  have hq : readWordRequest (some (.obj [("word_name", .str "DUP"), ("stack", looseStack x)])) =
      .ok ⟨"DUP", js⟩ := by
    change (do return (⟨"DUP", ← normalStack (some (looseStack x))⟩ : WordRequest)) = _
    rw [hjs]
    rfl
  have hr : readSequenceRequest (some (.obj [("stack", looseStack x)])) = .ok ⟨[], js⟩ := by
    change (do return (⟨[], ← normalStack (some (looseStack x))⟩ : SequenceRequest)) = _
    rw [hjs]
    rfl
  obtain ⟨fields, vs, hfields, -, hvs, back, again⟩ :=
    (requests_are_read_in_normal_form _).1 _ hq
  obtain ⟨fields', vs', hfields', -, hvs', back', again'⟩ :=
    (requests_are_read_in_normal_form _).2 _ hr
  cases hfields
  cases hfields'
  obtain rfl : vs = looseValues 5 := Except.ok.inj (hvs.symm.trans hstack)
  obtain rfl : vs' = looseValues 5 := Except.ok.inj (hvs'.symm.trans hstack)
  exact ⟨x, _, _, hq, hr, back _, again, back' _, again'⟩

end Wire

end Wordstack
