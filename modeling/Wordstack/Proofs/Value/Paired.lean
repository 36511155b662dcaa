import Mathlib.Data.List.Forall2
import Wordstack.Proofs.Wire.Decoded
import Wordstack.Vocabulary.Core
import Wordstack.Wire.Encode

/-!
# Values with other identities

The identities of modules, variables, memos, words and options are arbitrary: two runs that do the
same give out different ones if more was made before one of them.

- **Pairings** (`Pairing`): which identities of one run stand for which of another one. What is the
  same on one side is the same on the other, so comparing them tells nothing.
- **Values** (`Val.Paired`): the same but for identities. They are the same on the wire
  (`Val.Paired.encodeStack_eq`) and on one line (`Val.Paired.display_eq`), and values that can be
  sent are paired with themselves only.
- **Keys** (`Named`): lists of fields with the same keys, whose values are in a relation.
-/

namespace Wordstack

open Relator

/-- Which identities of one run stand for which of another one. -/
structure Pairing where
  module : Nat → Nat → Prop
  cell : Nat → Nat → Prop
  memo : Nat → Nat → Prop
  /-- Identities of words and of options. -/
  id : Nat → Nat → Prop
  module_unique : BiUnique module
  cell_unique : BiUnique cell
  memo_unique : BiUnique memo
  id_unique : BiUnique id

/-! ## Keys -/

/-- Fields with the same key, whose values are in a relation. -/
inductive Named {α β : Type} (R : α → β → Prop) : String × α → String × β → Prop
  | mk (key : String) {a : α} {b : β} (h : R a b) : Named R (key, a) (key, b)

section Fields

variable {α β : Type} {R : α → β → Prop} {fs : List (String × α)} {gs : List (String × β)}

theorem Named.setField (h : List.Forall₂ (Named R) fs gs) (key : String) {a : α} {b : β}
    (hab : R a b) :
    List.Forall₂ (Named R) (Json.setField fs key a) (Json.setField gs key b) := by
  induction h with
  | nil => exact .cons (.mk key hab) .nil
  | cons hf hrest ih =>
    obtain ⟨k, hf⟩ := hf
    unfold Json.setField
    split
    · exact .cons (.mk k hab) hrest
    · exact .cons (.mk k hf) ih

theorem Named.distinctFields (h : List.Forall₂ (Named R) fs gs) :
    List.Forall₂ (Named R) (Json.distinctFields fs) (Json.distinctFields gs) := by
  refine List.rel_foldl (P := List.Forall₂ (Named R)) (R := Named R) (fun fs gs hacc e e' he => ?_)
    .nil h
  obtain ⟨k, he⟩ := he
  exact Named.setField hacc k he

theorem Named.lookup (h : List.Forall₂ (Named R) fs gs) (key : String) :
    Option.Rel R (fs.lookup key) (gs.lookup key) := by
  induction h with
  | nil => exact .none
  | cons hf _ ih =>
    obtain ⟨k, hf⟩ := hf
    rw [List.lookup_cons, List.lookup_cons]
    split
    · exact .some hf
    · exact ih

end Fields

/-! ## Values -/

/-- Values that are the same but for identities that stand for each other. -/
inductive Val.Paired (P : Pairing) : Val → Val → Prop
  | int (n : Int) : Paired P (.int n) (.int n)
  | float (x : Binary64) : Paired P (.float x) (.float x)
  | bool (b : Bool) : Paired P (.bool b) (.bool b)
  | str (s : String) : Paired P (.str s) (.str s)
  | null : Paired P .null .null
  | array {vs ws : List Val} (h : List.Forall₂ (Paired P) vs ws) : Paired P (.array vs) (.array ws)
  | record {fs gs : List (String × Val)} (h : List.Forall₂ (Named (Paired P)) fs gs) :
    Paired P (.record fs) (.record gs)
  | instant (iso : String) : Paired P (.instant iso) (.instant iso)
  | plainDate (iso : String) : Paired P (.plainDate iso) (.plainDate iso)
  | zoned (iso zone : String) : Paired P (.zoned iso zone) (.zoned iso zone)
  | wordRef {a b : Nat} (name : String) (h : P.id a b) :
    Paired P (.wordRef ⟨a, name⟩) (.wordRef ⟨b, name⟩)
  | moduleRef {a b : Nat} (name : String) (h : P.module a b) :
    Paired P (.moduleRef ⟨a, name⟩) (.moduleRef ⟨b, name⟩)
  | variableRef {a b : Nat} (name : String) (h : P.cell a b) :
    Paired P (.variableRef ⟨a, name⟩) (.variableRef ⟨b, name⟩)
  | options {a b : Nat} {fs gs : List (String × Val)} (ha : P.id a b)
      (h : List.Forall₂ (Named (Paired P)) fs gs) : Paired P (.options a fs) (.options b gs)

/-- Values one by one. -/
abbrev Val.AllPaired (P : Pairing) : List Val → List Val → Prop := List.Forall₂ (Val.Paired P)

/-- Entries of options or records one by one. -/
abbrev Val.EntriesPaired (P : Pairing) : List (String × Val) → List (String × Val) → Prop :=
  List.Forall₂ (Named (Val.Paired P))

namespace Val.Paired

variable {P : Pairing} {v w : Val}

theorem isMissing_eq (h : v.Paired P w) : v.isMissing = w.isMissing := by cases h <;> rfl

/-! ### Values that can be sent -/

mutual
/-- A value that can be sent has no identities. -/
theorem self : ∀ {v : Val}, v.isSerializable = true → v.Paired P v
  | .int n, _ => .int n
  | .float x, _ => .float x
  | .bool b, _ => .bool b
  | .str s, _ => .str s
  | .null, _ => .null
  | .array _, h => .array (selfAll h)
  | .record _, h => .record (selfFields h)
  | .instant iso, _ => .instant iso
  | .plainDate iso, _ => .plainDate iso
  | .zoned iso zone, _ => .zoned iso zone

@[inherit_doc self]
theorem selfAll : ∀ {vs : List Val}, areSerializable vs = true → AllPaired P vs vs
  | [], _ => .nil
  | _ :: _, h =>
    have h := Bool.and_eq_true_iff.mp h
    .cons (self h.1) (selfAll h.2)

@[inherit_doc self]
theorem selfFields :
    ∀ {fs : List (String × Val)}, fieldsSerializable fs = true → EntriesPaired P fs fs
  | [], _ => .nil
  | (k, _) :: _, h =>
    have h := Bool.and_eq_true_iff.mp h
    .cons (.mk k (self h.1)) (selfFields h.2)
end

/-! ### What is seen of a value -/

mutual
theorem encode_eq : ∀ {v w : Val}, v.Paired P w → Wire.encode v = Wire.encode w
  | _, _, .array h => by rw [Wire.encode, Wire.encode, encodeStack_eq h]
  | _, _, .record h => by rw [Wire.encode, Wire.encode, encodeFields_eq h]
  | _, _, .int _ | _, _, .float _ | _, _, .bool _ | _, _, .str _ | _, _, .null | _, _, .instant _
  | _, _, .plainDate _ | _, _, .zoned _ _ => rfl
  | _, _, .wordRef .. | _, _, .moduleRef .. | _, _, .variableRef .. | _, _, .options .. => by
    rw [Wire.encode, Wire.encode]

/-- Stacks that are the same but for identities are the same on the wire. -/
theorem encodeStack_eq :
    ∀ {vs ws : List Val}, AllPaired P vs ws → Wire.encodeStack vs = Wire.encodeStack ws
  | [], _, .nil => rfl
  | _ :: _, _, .cons h hs => by
    rw [Wire.encodeStack, Wire.encodeStack, encode_eq h, encodeStack_eq hs]

theorem encodeFields_eq : ∀ {fs gs : List (String × Val)}, EntriesPaired P fs gs →
    Wire.encodeFields fs = Wire.encodeFields gs
  | [], _, .nil => rfl
  | _ :: _, _, .cons (.mk _ h) hs => by
    rw [Wire.encodeFields, Wire.encodeFields, encode_eq h, encodeFields_eq hs]
end

mutual
theorem display_eq : ∀ {v w : Val}, v.Paired P w → v.display = w.display
  | _, _, .array h => by rw [display, display, displayItems_eq h]
  | _, _, .record h => by rw [display, display, displayFields_eq h]
  | _, _, .options _ h => by rw [display, display, displayEntries_eq h]
  | _, _, .int _ | _, _, .float _ | _, _, .bool _ | _, _, .str _ | _, _, .null | _, _, .instant _
  | _, _, .plainDate _ | _, _, .zoned _ _ => rfl
  | _, _, .wordRef .. | _, _, .moduleRef .. | _, _, .variableRef .. => by rw [display, display]

theorem displayItems_eq :
    ∀ {vs ws : List Val}, AllPaired P vs ws → displayItems vs = displayItems ws
  | [], _, .nil => rfl
  | _ :: _, _, .cons h hs => by
    rw [displayItems, displayItems, display_eq h, displayItems_eq hs]

theorem displayFields_eq : ∀ {fs gs : List (String × Val)}, EntriesPaired P fs gs →
    displayFields fs = displayFields gs
  | [], _, .nil => rfl
  | _ :: _, _, .cons (.mk _ h) hs => by
    rw [displayFields, displayFields, display_eq h, displayFields_eq hs]

theorem displayEntries_eq : ∀ {fs gs : List (String × Val)}, EntriesPaired P fs gs →
    displayEntries fs = displayEntries gs
  | [], _, .nil => rfl
  | _ :: _, _, .cons (.mk _ h) hs => by
    rw [displayEntries, displayEntries, display_eq h, displayEntries_eq hs]
end

end Val.Paired

/-! ## Outcomes -/

/-- Values in a relation, or the same fault. -/
inductive ExceptPaired {α β : Type} (R : α → β → Prop) : Except Fault α → Except Fault β → Prop
  | ok {a : α} {b : β} (h : R a b) : ExceptPaired R (.ok a) (.ok b)
  | error (f : Fault) : ExceptPaired R (.error f) (.error f)

namespace ExceptPaired

variable {α β γ δ : Type} {R : α → β → Prop} {S : γ → δ → Prop} {x : Except Fault α}
  {y : Except Fault β}

theorem bind {f : α → Except Fault γ} {g : β → Except Fault δ} (h : ExceptPaired R x y)
    (hf : ∀ a b, R a b → ExceptPaired S (f a) (g b)) : ExceptPaired S (x >>= f) (y >>= g) := by
  cases h with
  | ok h => exact hf _ _ h
  | error f => exact .error f

theorem mono {R' : α → β → Prop} (h : ExceptPaired R x y) (hR : ∀ a b, R a b → R' a b) :
    ExceptPaired R' x y := by
  cases h with
  | ok h => exact .ok (hR _ _ h)
  | error f => exact .error f

theorem map {f : α → γ} {g : β → δ} (h : ExceptPaired R x y)
    (hf : ∀ a b, R a b → S (f a) (g b)) : ExceptPaired S (x.map f) (y.map g) := by
  cases h with
  | ok h => exact .ok (hf _ _ h)
  | error f => exact .error f

end ExceptPaired

/-! ## Options -/

namespace Options

variable {P : Pairing}

theorem paired_pairUp (i : Nat) : ∀ {vs ws : List Val}, Val.AllPaired P vs ws →
    ExceptPaired (Val.EntriesPaired P) (pairUp i vs) (pairUp i ws)
  | _, _, .nil => .ok .nil
  | _, _, .cons _ .nil => .ok .nil
  | _, _, .cons hkey (.cons hvalue hrest) => by
    cases hkey with
    | str key =>
      exact (paired_pairUp (i + 2) hrest).bind fun _ _ he => .ok (.cons (.mk key hvalue) he)
    | _ => exact .error _

/-- Options are built alike of values that are the same but for identities. -/
theorem paired_ofFlat {vs ws : List Val} (h : Val.AllPaired P vs ws) :
    ExceptPaired (fun o o' => Val.EntriesPaired P o.entries o'.entries) (ofFlat vs) (ofFlat ws) := by
  unfold ofFlat
  rw [h.length_eq]
  split
  · exact .error _
  · exact (paired_pairUp 0 h).map fun _ _ he => Named.distinctFields he

end Options

end Wordstack
