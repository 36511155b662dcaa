import Wordstack.Machine.Memo
import Wordstack.Proofs.Word.Blind

/-!
# Code that cannot reach a variable

A variable is reached by its name, inside of its module, or by a reference to its cell. What holds
no reference to hidden cells, and makes none out of what it is given, cannot reach them.

- **Values** (`Val.refs`, `Val.Avoids`): the cells that a value refers to. A value that can be sent
  to another runtime refers to none.
- **Code** (`Native.Avoids`): queries give away no hidden cell, as long as replies do not.
- **Words** (`Word.Avoids`) and **memory** (`Memo.Avoids`).
- **Nothing hidden**: everything avoids no cells (`Word.avoids_of_none`).
-/

namespace Wordstack

/-! ## Values -/

namespace Val

mutual
/-- The cells of the variables that a value refers to. -/
def refs : Val → List Nat
  | variableRef r => [r.id]
  | array items => refsOfItems items
  | record fields | options _ fields => refsOfFields fields
  | int _ | float _ | bool _ | str _ | null | instant _ | plainDate _ | zoned _ _ | wordRef _ |
    moduleRef _ => []

/-- `refs` of all items. -/
def refsOfItems : List Val → List Nat
  | [] => []
  | v :: vs => refs v ++ refsOfItems vs

/-- `refs` of all fields. -/
def refsOfFields : List (String × Val) → List Nat
  | [] => []
  | (_, v) :: rest => refs v ++ refsOfFields rest
end

/-- The value refers to no hidden cell. -/
def Avoids (hidden : Nat → Prop) (v : Val) : Prop := ∀ c ∈ v.refs, ¬ hidden c

variable {hidden : Nat → Prop} {v : Val} {vs : List Val} {fields : List (String × Val)}

theorem mem_refsOfItems {c : Nat} : c ∈ refsOfItems vs ↔ ∃ v ∈ vs, c ∈ v.refs := by
  induction vs with
  | nil => simp [refsOfItems]
  | cons v vs ih => simp [refsOfItems, ih]

theorem mem_refsOfFields {c : Nat} : c ∈ refsOfFields fields ↔ ∃ e ∈ fields, c ∈ e.2.refs := by
  induction fields with
  | nil => simp [refsOfFields]
  | cons e rest ih => simp [refsOfFields, ih]

theorem avoids_variableRef {r : Ref} : (variableRef r).Avoids hidden ↔ ¬ hidden r.id := by
  simp [Avoids, refs]

theorem avoids_array : (array vs).Avoids hidden ↔ ∀ v ∈ vs, v.Avoids hidden := by
  simp only [Avoids, refs, mem_refsOfItems]
  exact ⟨fun h v hv c hc => h c ⟨v, hv, hc⟩, fun h c ⟨v, hv, hc⟩ => h v hv c hc⟩

theorem avoids_record : (record fields).Avoids hidden ↔ ∀ e ∈ fields, e.2.Avoids hidden := by
  simp only [Avoids, refs, mem_refsOfFields]
  exact ⟨fun h e he c hc => h c ⟨e, he, hc⟩, fun h c ⟨e, he, hc⟩ => h e he c hc⟩

theorem avoids_options {id : Nat} :
    (options id fields).Avoids hidden ↔ ∀ e ∈ fields, e.2.Avoids hidden :=
  avoids_record

mutual
theorem refs_of_isSerializable : ∀ {v : Val}, v.isSerializable = true → v.refs = []
  | array _, h => refsOfItems_of_areSerializable h
  | record _, h => refsOfFields_of_fieldsSerializable h
  | int _, _ | float _, _ | bool _, _ | str _, _ | null, _ | instant _, _ | plainDate _, _
  | zoned _ _, _ => rfl

theorem refsOfItems_of_areSerializable :
    ∀ {vs : List Val}, areSerializable vs = true → refsOfItems vs = []
  | [], _ => rfl
  | v :: vs, h => by
    rw [areSerializable, Bool.and_eq_true] at h
    rw [refsOfItems, refs_of_isSerializable h.1, refsOfItems_of_areSerializable h.2]
    rfl

theorem refsOfFields_of_fieldsSerializable :
    ∀ {fields : List (String × Val)}, fieldsSerializable fields = true → refsOfFields fields = []
  | [], _ => rfl
  | (_, v) :: rest, h => by
    rw [fieldsSerializable, Bool.and_eq_true] at h
    rw [refsOfFields, refs_of_isSerializable h.1, refsOfFields_of_fieldsSerializable h.2]
    rfl
end

theorem avoids_of_isSerializable (h : v.isSerializable = true) : v.Avoids hidden := by
  rw [Avoids, refs_of_isSerializable h]
  exact List.forall_mem_nil _

theorem avoids_null : null.Avoids hidden := avoids_of_isSerializable rfl

theorem avoids_str (s : String) : (str s).Avoids hidden := avoids_of_isSerializable rfl

theorem avoids_bool (b : Bool) : (bool b).Avoids hidden := avoids_of_isSerializable rfl

end Val

/-! ## Native code -/

/-- The query gives no hidden cell away, and does not change one. -/
def Query.Avoids (hidden : Nat → Prop) : Query → Prop
  | .push v => v.Avoids hidden
  | .setStack vs => ∀ v ∈ vs, v.Avoids hidden
  | .store cell v => ¬ hidden cell ∧ v.Avoids hidden
  | _ => True

/-- The reply gives no hidden cell away. -/
def Query.ReplyAvoids (hidden : Nat → Prop) : (q : Query) → q.Reply → Prop
  | .pop, v | .peek, v | .fetch _, v | .profile, v => Val.Avoids hidden v
  | .popN _, (vs : List Val) | .stack, (vs : List Val) => ∀ v ∈ vs, v.Avoids hidden
  | .top, (o : Option Val) => ∀ v ∈ o, v.Avoids hidden
  | .variableNamed _, (r : Ref) => ¬ hidden r.id
  | _, _ => True

/-- As long as replies give no hidden cell away, neither do queries, and the result has a
property. -/
def Native.Avoids (hidden : Nat → Prop) {α : Type} (P : α → Prop) : Native α → Prop
  | .done a => P a
  | .fail _ => True
  | .ask q next => q.Avoids hidden ∧ ∀ r, q.ReplyAvoids hidden r → (next r).Avoids hidden P

/-- `Native.Avoids` for all faults. -/
def Handler.Avoids (hidden : Nat → Prop) (h : Handler) : Prop :=
  ∀ f, (h f).Avoids hidden fun _ => True

namespace Native.Avoids

variable {α β : Type} {hidden : Nat → Prop} {P : α → Prop} {Q : β → Prop} {x : Native α}

theorem pure {a : α} (ha : P a) : (Pure.pure a : Native α).Avoids hidden P := ha

theorem fail {f : Fault} : (Native.fail f : Native α).Avoids hidden P := ⟨⟩

theorem mono {P' : α → Prop} (h : x.Avoids hidden P) (hP : ∀ a, P a → P' a) :
    x.Avoids hidden P' := by
  induction x with
  | done a => exact hP a h
  | fail f => exact ⟨⟩
  | ask q next ih => exact ⟨h.1, fun r hr => ih r (h.2 r hr)⟩

theorem bind {f : α → Native β} (h : x.Avoids hidden P) (hf : ∀ a, P a → (f a).Avoids hidden Q) :
    (x >>= f).Avoids hidden Q := by
  induction x with
  | done a => exact hf a h
  | fail f => exact ⟨⟩
  | ask q next ih => exact ⟨h.1, fun r hr => ih r (h.2 r hr)⟩

theorem query {q : Query} (h : q.Avoids hidden) :
    (Native.query q).Avoids hidden (q.ReplyAvoids hidden) :=
  ⟨h, fun _ hr => hr⟩

theorem lift {r : Except Fault α} (h : ∀ a, r = .ok a → P a) :
    (Native.lift r).Avoids hidden P := by
  cases r with
  | ok a => exact h a rfl
  | error f => exact ⟨⟩

/-- A map of code over a list, whose results do not matter. -/
theorem mapM {γ : Type} {f : γ → Native α} (h : ∀ c, (f c).Avoids hidden fun _ => True)
    (cs : List γ) : (cs.mapM f).Avoids hidden fun _ => True := by
  induction cs with
  | nil => exact pure ⟨⟩
  | cons c cs ih =>
    rw [List.mapM_cons]
    exact (h c).bind fun a _ => ih.bind fun as _ => pure ⟨⟩

end Native.Avoids

/-! ## Words -/

mutual
/-- The word holds no hidden cell, and does not make one out of what it is given. -/
def Word.Avoids (hidden : Nat → Prop) : Word → Prop
  | .constant _ v => v.Avoids hidden
  | .definition _ body => Word.BodyAvoids hidden body
  | .native _ _ _ _ code handlers =>
    (∀ args options, (∀ v ∈ args, v.Avoids hidden) →
      (∀ e ∈ Options.entries options, e.2.Avoids hidden) →
      (code args options).Avoids hidden fun r => ∀ v ∈ r, v.Avoids hidden) ∧
    ∀ h ∈ handlers, h.Avoids hidden
  | .direct _ _ code handlers =>
    (code.Avoids hidden fun _ => True) ∧ ∀ h ∈ handlers, h.Avoids hidden
  | .memo _ _ w | .memoRefresh _ _ w | .memoReload _ _ w => w.Avoids hidden
  | .openArray | .closeArray | .openModule _ | .closeModule | .remote .. => True

/-- `Word.Avoids` of every entry. -/
def Word.BodyAvoids (hidden : Nat → Prop) : List (Word × Location) → Prop
  | [] => True
  | (w, _) :: rest => w.Avoids hidden ∧ Word.BodyAvoids hidden rest
end

/-- No value that the memo remembers, or has handed on, gives a hidden cell away. -/
structure Memo.Avoids (hidden : Nat → Prop) (m : Memo) : Prop where
  value : ∀ v ∈ m.value, v.Avoids hidden
  outcomes : ∀ o ∈ m.outcomes, ∀ v, o = .ok v → v.Avoids hidden

namespace Word

variable {hidden : Nat → Prop} {w : Word}

@[simp] theorem avoids_relabel (f : WordLabel → WordLabel) :
    (w.relabel f).Avoids hidden ↔ w.Avoids hidden := by
  cases w <;> simp [relabel, Avoids]

theorem bodyAvoids_iff {body : List (Word × Location)} :
    BodyAvoids hidden body ↔ ∀ e ∈ body, e.1.Avoids hidden := by
  induction body with
  | nil => simp [BodyAvoids]
  | cons e rest ih => simp [BodyAvoids, ih]

end Word

namespace Memo.Avoids

variable {hidden : Nat → Prop} {m : Memo} {outcome : Except Fault Val}

theorem empty : Memo.Avoids hidden {} := ⟨nofun, nofun⟩

theorem finish (h : m.Avoids hidden) (ho : ∀ v, outcome = .ok v → v.Avoids hidden) :
    (m.finish outcome).Avoids hidden := by
  refine ⟨h.value, fun o hmem => ?_⟩
  obtain hmem | rfl := Array.mem_push.mp hmem
  · exact h.outcomes o hmem
  · exact ho

theorem close (h : m.Avoids hidden) (ho : ∀ v, outcome = .ok v → v.Avoids hidden) :
    (m.close outcome).Avoids hidden := by
  refine ⟨fun v hv => ?_, h.outcomes⟩
  cases outcome with
  | ok v' => exact ho v (congrArg Except.ok (Option.some.inj hv))
  | error f => exact h.value v hv

theorem outcome? {run : Nat} {o : Except Fault Val} (h : m.Avoids hidden)
    (ho : m.outcome? run = some o) : ∀ v, o = .ok v → v.Avoids hidden :=
  h.outcomes o (Array.mem_of_getElem? ho)

end Memo.Avoids

/-! ## Nothing hidden -/

section None

variable {hidden : Nat → Prop}

theorem Val.avoids_of_none (h : ∀ c, ¬ hidden c) (v : Val) : v.Avoids hidden := fun c _ => h c

theorem Native.avoids_of_none (h : ∀ c, ¬ hidden c) {α : Type} {P : α → Prop} (hP : ∀ a, P a)
    (x : Native α) : x.Avoids hidden P := by
  induction x with
  | done a => exact hP a
  | fail f => exact ⟨⟩
  | ask q next ih =>
    refine ⟨?_, fun r _ => ih r⟩
    cases q with
    | push v => exact v.avoids_of_none h
    | setStack vs => exact fun v _ => v.avoids_of_none h
    | store cell v => exact ⟨h cell, v.avoids_of_none h⟩
    | _ => exact ⟨⟩

theorem Handler.avoids_of_none (h : ∀ c, ¬ hidden c) (handler : Handler) :
    handler.Avoids hidden :=
  fun f => (handler f).avoids_of_none h fun _ => ⟨⟩

mutual
theorem Word.avoids_of_none (h : ∀ c, ¬ hidden c) : ∀ w : Word, w.Avoids hidden
  | .constant _ v => by rw [Word.Avoids]; exact v.avoids_of_none h
  | .definition _ body => by rw [Word.Avoids]; exact Word.bodyAvoids_of_none h body
  | .native _ _ _ _ code handlers => by
    rw [Word.Avoids]
    exact ⟨fun args options _ _ => (code args options).avoids_of_none h fun _ v _ =>
      v.avoids_of_none h, fun handler _ => handler.avoids_of_none h⟩
  | .direct _ _ code handlers => by
    rw [Word.Avoids]
    exact ⟨code.avoids_of_none h fun _ => ⟨⟩, fun handler _ => handler.avoids_of_none h⟩
  | .memo _ _ w | .memoRefresh _ _ w | .memoReload _ _ w => by
    rw [Word.Avoids]
    exact Word.avoids_of_none h w
  | .openArray | .closeArray | .openModule _ | .closeModule | .remote .. => by
    rw [Word.Avoids]
    trivial

theorem Word.bodyAvoids_of_none (h : ∀ c, ¬ hidden c) :
    ∀ body : List (Word × Location), Word.BodyAvoids hidden body
  | [] => by rw [Word.BodyAvoids]; trivial
  | (w, _) :: rest => by
    rw [Word.BodyAvoids]
    exact ⟨Word.avoids_of_none h w, Word.bodyAvoids_of_none h rest⟩
end

end None

end Wordstack
