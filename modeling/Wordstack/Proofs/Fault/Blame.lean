import Mathlib.Tactic.Common
import Wordstack.Fault.Basic

/-!
# Blame and reports

A check that goes through the parts of something in order stops at the first part that is not good,
and its fault is due to that part. The context of a report about a fault is an object: each key
stands once in it, with its last value.

- **Steps in order** (`Except.of_bind_ok`).
- **First bad parts** (`FirstBad`): there is at most one (`FirstBad.unique`).
- **Checks** (`Blames`): they succeed exactly if all parts are good (`Blames.isOk_iff`), and what is
  due to the first bad part is known otherwise (`Blames.exists_due`).
- **Contexts of reports** (`Report.lookup_contextOf`, `Fault.lookup_report`): what stands under a
  key (`Json.lookup_distinctFields`, `lookup_indexedFirst`).
-/

namespace Wordstack

variable {α β π : Type} {good : π → Prop} {due : π → Fault → Prop} {parts parts' : List π} {p : π}

/-- A value that steps in order come to goes by a value of the first one. -/
theorem Except.of_bind_ok {ε : Type} {x : Except ε α} {f : α → Except ε β} {b : β}
    (h : (x >>= f) = .ok b) : ∃ a, x = .ok a ∧ f a = .ok b := by
  cases x with
  | ok a => exact ⟨a, rfl, h⟩
  | error e => cases h

/-- The part is not good, and all parts before it are. -/
def FirstBad (good : π → Prop) (parts : List π) (p : π) : Prop :=
  ∃ before after, parts = before ++ p :: after ∧ (∀ q ∈ before, good q) ∧ ¬ good p

namespace FirstBad

theorem head (h : ¬ good p) : FirstBad good (p :: parts) p := ⟨[], parts, rfl, nofun, h⟩

theorem cons {q : π} (hq : good q) (h : FirstBad good parts p) : FirstBad good (q :: parts) p := by
  obtain ⟨before, after, rfl, hbefore, hp⟩ := h
  exact ⟨q :: before, after, rfl, List.forall_mem_cons.mpr ⟨hq, hbefore⟩, hp⟩

theorem append_right (h : FirstBad good parts p) (parts' : List π) :
    FirstBad good (parts ++ parts') p := by
  obtain ⟨before, after, rfl, hbefore, hp⟩ := h
  exact ⟨before, after ++ parts', by simp, hbefore, hp⟩

theorem append_left (hgood : ∀ q ∈ parts, good q) (h : FirstBad good parts' p) :
    FirstBad good (parts ++ parts') p := by
  induction parts with
  | nil => exact h
  | cons q rest ih =>
    obtain ⟨hq, hrest⟩ := List.forall_mem_cons.mp hgood
    exact cons hq (ih hrest)

theorem not_all (h : FirstBad good parts p) : ¬ ∀ q ∈ parts, good q := by
  obtain ⟨before, after, rfl, -, hp⟩ := h
  intro hall
  exact hp (hall p (List.mem_append_right _ List.mem_cons_self))

theorem unique {q : π} (hp : FirstBad good parts p) (hq : FirstBad good parts q) : p = q := by
  induction parts with
  | nil =>
    obtain ⟨before, after, h, -, -⟩ := hp
    exact absurd h (by simp)
  | cons r rest ih =>
    -- the head is the first bad part of both, or of neither
    have hcases : ∀ {x}, FirstBad good (r :: rest) x → (¬ good r ∧ x = r) ∨
        (good r ∧ FirstBad good rest x) := by
      rintro x ⟨before, after, h, hbefore, hx⟩
      match before with
      | [] =>
        obtain ⟨rfl, rfl⟩ := List.cons.inj h
        exact .inl ⟨hx, rfl⟩
      | b :: before =>
        obtain ⟨rfl, rfl⟩ := List.cons.inj h
        obtain ⟨hr, hbefore⟩ := List.forall_mem_cons.mp hbefore
        exact .inr ⟨hr, before, after, rfl, hbefore, hx⟩
    obtain ⟨hr, rfl⟩ | ⟨hr, hp⟩ := hcases hp <;> obtain ⟨hr', rfl⟩ | ⟨hr', hq⟩ := hcases hq
    · rfl
    · exact absurd hr' hr
    · exact absurd hr hr'
    · exact ih hp hq

end FirstBad

/-- A check of parts in order: it succeeds if all of them are good, and otherwise fails with what is
due to the first that is not. -/
inductive Blames (good : π → Prop) (due : π → Fault → Prop) (parts : List π) : Except Fault α → Prop
  | ok {a : α} (h : ∀ p ∈ parts, good p) : Blames good due parts (.ok a)
  | error {p : π} {f : Fault} (h : FirstBad good parts p) (hf : due p f) :
    Blames good due parts (.error f)

namespace Blames

variable {r : Except Fault α}

/-- Nothing is looked at. -/
theorem nil (a : α) : Blames good due [] (.ok a : Except Fault α) := .ok nofun

/-- The first part is bad. -/
theorem bad {f : Fault} (h : ¬ good p) (hf : due p f) :
    Blames good due (p :: parts) (.error f : Except Fault α) :=
  .error (.head h) hf

/-- The first part is good. -/
theorem cons (hp : good p) (h : Blames good due parts r) : Blames good due (p :: parts) r := by
  cases h with
  | ok h => exact .ok (List.forall_mem_cons.mpr ⟨hp, h⟩)
  | error h hf => exact .error (h.cons hp) hf

theorem map (h : Blames good due parts r) (f : α → β) : Blames good due parts (r.map f) := by
  cases h with
  | ok h => exact .ok h
  | error h hf => exact .error h hf

/-- The parts before are good. -/
theorem append_left (hgood : ∀ q ∈ parts, good q) (h : Blames good due parts' r) :
    Blames good due (parts ++ parts') r := by
  cases h with
  | ok h => exact .ok (List.forall_mem_append.mpr ⟨hgood, h⟩)
  | error h hf => exact .error (h.append_left hgood) hf

theorem bind {f : α → Except Fault β} (h : Blames good due parts r)
    (hf : ∀ a, Blames good due parts' (f a)) : Blames good due (parts ++ parts') (r >>= f) := by
  cases h with
  | @ok a h => exact (hf a).append_left h
  | error h hdue => exact .error (h.append_right parts') hdue

/-- Nothing is looked at any more. -/
theorem done (h : Blames good due parts r) (f : α → β) :
    Blames good due parts (r >>= fun a => .ok (f a)) := by
  simpa using h.bind fun a => nil (f a)

theorem isOk_iff (h : Blames good due parts r) : (∃ a, r = .ok a) ↔ ∀ p ∈ parts, good p := by
  cases h with
  | @ok a h => exact ⟨fun _ => h, fun _ => ⟨a, rfl⟩⟩
  | error h _ => exact ⟨nofun, fun hall => absurd hall h.not_all⟩

theorem exists_due {f : Fault} (h : Blames good due parts (.error f : Except Fault α)) :
    ∃ p, FirstBad good parts p ∧ due p f := by
  cases h with
  | error h hf => exact ⟨_, h, hf⟩

theorem exists_error (h : Blames good due parts r) (hbad : ¬ ∀ p ∈ parts, good p) :
    ∃ p f, FirstBad good parts p ∧ r = .error f ∧ due p f := by
  cases h with
  | ok h => exact absurd h hbad
  | error h hf => exact ⟨_, _, h, rfl, hf⟩

end Blames

/-! ## What reports say -/

section Reports

variable {key : String}

theorem Json.lookup_setField (fields : List (String × α)) (name : String) (value : α) :
    (setField fields name value).lookup key =
      if key == name then some value else fields.lookup key := by
  induction fields with
  | nil => rw [setField, List.lookup_cons, List.lookup_nil]; cases key == name <;> rfl
  | cons field fields ih =>
    obtain ⟨k, v⟩ := field
    unfold setField
    split
    · rename_i hk
      obtain rfl := beq_iff_eq.mp hk
      rw [List.lookup_cons, List.lookup_cons]
      cases key == k <;> rfl
    · rename_i hk
      rw [List.lookup_cons, List.lookup_cons, ih]
      by_cases hkey : key = k
      · subst hkey
        simp [hk]
      · simp [beq_eq_false_iff_ne.mpr hkey]

theorem Json.lookup_distinctFields (fields : List (String × α)) :
    (distinctFields fields).lookup key = fields.reverse.lookup key := by
  unfold distinctFields
  rw [← List.foldr_reverse]
  induction fields.reverse with
  | nil => rfl
  | cons field fields ih =>
    rw [List.foldr_cons, lookup_setField, ih, List.lookup_cons]
    cases key == field.1 <;> rfl

theorem lookup_filter {p : String → Bool} (hk : p key = true) (fields : List (String × α)) :
    (fields.filter fun e => p e.1).lookup key = fields.lookup key := by
  induction fields with
  | nil => rfl
  | cons field fields ih =>
    by_cases hkey : key = field.1
    · rw [List.filter_cons_of_pos (by rwa [← hkey]), List.lookup_cons, List.lookup_cons, ih]
    · have hne := beq_eq_false_iff_ne.mpr hkey
      rw [List.lookup_cons, hne, List.filter_cons]
      split
      · rw [List.lookup_cons, hne, ih]
      · exact ih

theorem insertByIndex_perm (x : Nat × String × α) (xs : List (Nat × String × α)) :
    (insertByIndex x xs).Perm (x :: xs) := by
  induction xs with
  | nil => exact .refl _
  | cons y xs ih =>
    unfold insertByIndex
    split
    · exact .refl _
    · exact (ih.cons y).trans (.swap x y xs)

theorem foldl_insertByIndex_perm (xs acc : List (Nat × String × α)) :
    (xs.foldl (fun acc x => insertByIndex x acc) acc).Perm (acc ++ xs) := by
  induction xs generalizing acc with
  | nil => rw [List.append_nil]; exact .refl _
  | cons x xs ih =>
    exact (ih _).trans (((insertByIndex_perm x acc).append_right xs).trans List.perm_middle.symm)

/-- Keys that are no array indices stand where they stood. -/
theorem lookup_indexedFirst (hk : indexKey? key = none) (fields : List (String × α)) :
    (indexedFirst fields).lookup key = fields.lookup key := by
  unfold indexedFirst
  dsimp only
  generalize hx : fields.filterMap (fun e => (indexKey? e.1).map fun n => (n, e)) = indexed
  have hindexed : ∀ x ∈ indexed, indexKey? x.2.1 ≠ none := fun x hmem => by
    subst hx
    obtain ⟨e, -, he⟩ := List.mem_filterMap.mp hmem
    obtain ⟨n, hn, rfl⟩ := Option.map_eq_some_iff.mp he
    exact fun h => Option.some_ne_none n (hn.symm.trans h)
  have hnone : ((indexed.foldl (fun acc x => insertByIndex x acc) []).map (·.2)).lookup key =
      none := by
    refine List.lookup_eq_none_iff.mpr fun e he => ?_
    obtain ⟨x, hmem, rfl⟩ := List.mem_map.mp he
    have hx := (foldl_insertByIndex_perm indexed []).mem_iff.mp hmem
    have hne : key ≠ x.2.1 := fun h => hindexed x hx (h ▸ hk)
    simpa using hne
  rw [List.lookup_append, hnone, Option.none_or]
  exact lookup_filter (p := fun k => (indexKey? k).isNone) (by rw [hk]; rfl) fields

/-- What a context says last under a key. -/
theorem Report.lookup_contextOf (hk : indexKey? key = none) (hp : key ≠ "__proto__")
    (entries : List (String × String)) :
    (contextOf entries).lookup key = entries.reverse.lookup key := by
  unfold contextOf
  rw [lookup_indexedFirst hk, Json.lookup_distinctFields, ← List.filter_reverse]
  exact lookup_filter (p := fun k => k != "__proto__") (by simpa using hp) _

/-- What a report says under a key: what it was given, or something about the root of the fault. -/
theorem Fault.lookup_report (hk : indexKey? key = none) (hp : key ≠ "__proto__")
    (hroot : key ≠ "root_error_type" ∧ key ≠ "root_message") (f : Fault)
    (context : List (String × String)) :
    (f.report context).context.lookup key = context.reverse.lookup key := by
  unfold report
  dsimp only
  rw [Report.lookup_contextOf hk hp, List.reverse_append, List.lookup_append]
  split
  · have hnone : [("root_message", f.root.message),
        ("root_error_type", f.root.kindName?.getD "string")].lookup key = none := by
      rw [List.lookup_cons, List.lookup_cons, beq_eq_false_iff_ne.mpr hroot.1,
        beq_eq_false_iff_ne.mpr hroot.2, List.lookup_nil]
    exact (congrArg _ hnone).trans Option.or_none
  · exact Option.or_none

end Reports

end Wordstack
