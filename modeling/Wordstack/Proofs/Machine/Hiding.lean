import Mathlib.Data.List.Forall2
import Mathlib.Data.List.Induction
import Wordstack.Proofs.Machine.Stores
import Wordstack.Proofs.Word.Avoiding

/-!
# Stores and interpreters without references to hidden variables

- **Stores** (`Store.Avoids`): no word, value or memo refers to a hidden cell, and the modules that
  code may come into have no hidden variable. Every word that is found is such a word
  (`Store.Avoids.resolve`).
- **Interpreters** (`Interp.Avoids`): nor does anything that the interpreter holds.
- **Well formed stores** (`Store.WellFormed`): blocks and variables exist, and no two modules share
  a variable.
- **Copies of modules** (`Store.CopiesCells`, `Store.module_copyModule`): a copy has cells of its
  own, with the values of the original's, and shares all else with it. Stores stay well formed and
  without references (`Store.WellFormed.copyModule`, `Store.Avoids.copyModule`).
-/

namespace Wordstack

theorem Store.fetch_addCell (s : Store) (v : Val) (c : Nat) :
    (s.addCell v).2.fetch c = if c = s.cells.size then v else s.fetch c := by
  unfold fetch addCell
  rw [Array.getElem?_push]
  split
  · simp
  · rfl

theorem Store.fetch_put (s : Store) (cell : Nat) (v : Val) (c : Nat) :
    (s.put cell v).fetch c = if c = cell ∧ c < s.cells.size then v else s.fetch c := by
  unfold fetch put
  by_cases hc : c = cell
  · subst hc
    by_cases hs : c < s.cells.size
    · simp [hs]
    · simp [hs]
  · simp [hc, Ne.symm hc]

/-! ## Stores -/

/-- Nothing in the store refers to a hidden cell, and the given modules have no hidden variable. -/
structure Store.Avoids (hidden own : Nat → Prop) (s : Store) : Prop where
  words : ∀ m, ∀ w ∈ (s.module m).words, w.Avoids hidden
  vars : ∀ {m}, own m → ∀ e ∈ (s.module m).cells, ¬ hidden e.2
  cells : ∀ c, (s.fetch c).Avoids hidden
  memos : ∀ k, (s.memo k).Avoids hidden

theorem Store.avoids_of_none {hidden own : Nat → Prop} (h : ∀ c, ¬ hidden c) (s : Store) :
    s.Avoids hidden own where
  words _ w _ := w.avoids_of_none h
  vars _ e _ := h e.2
  cells c := (s.fetch c).avoids_of_none h
  memos _ := ⟨fun v _ => v.avoids_of_none h, fun _ _ v _ => v.avoids_of_none h⟩

/-- Blocks and variables exist, and no two modules share a variable. -/
structure Store.WellFormed (s : Store) : Prop where
  children : ∀ m, ∀ c ∈ (s.module m).children, c.2 < s.modules.size
  cells : ∀ m, ∀ e ∈ (s.module m).cells, e.2 < s.cells.size
  apart : ∀ {m n}, ∀ e ∈ (s.module m).cells, ∀ e' ∈ (s.module n).cells, e.2 = e'.2 → m = n

/-! ## Interpreters -/

/-- Nothing in a stack, an open definition, a handler or the readers of literals refers to a hidden
cell. -/
structure Interp.HoldingsAvoid (hidden : Nat → Prop) (stack : OperandStack)
    (definition : Option OpenDefinition) (recovery : Option Handler)
    (readers : List LiteralReader) : Prop where
  stack : ∀ v ∈ stack.values, v.Avoids hidden
  definition : ∀ d ∈ definition, Word.BodyAvoids hidden d.body
  recovery : ∀ h ∈ recovery, Handler.Avoids hidden h
  readers : ∀ r ∈ readers, ∀ text v, r text = some v → v.Avoids hidden

/-- Nothing that the interpreter holds refers to a hidden cell. -/
def Interp.Avoids (hidden : Nat → Prop) (i : Interp) : Prop :=
  HoldingsAvoid hidden i.stack i.definition i.recovery i.readers

namespace Interp.Avoids

variable {hidden own : Nat → Prop} {i : Interp} {s : Store}

theorem of_none (h : ∀ c, ¬ hidden c) (i : Interp) : i.Avoids hidden where
  stack v _ := v.avoids_of_none h
  definition _ _ := Word.bodyAvoids_of_none h _
  recovery handler _ := handler.avoids_of_none h
  readers _ _ _ v _ := v.avoids_of_none h

theorem withStack (hi : i.Avoids hidden) {stack : OperandStack}
    (h : ∀ v ∈ stack.values, v.Avoids hidden) : Avoids hidden { i with stack } :=
  ⟨h, hi.definition, hi.recovery, hi.readers⟩

/-- A literal, a word or a variable: whatever a text stands for, it is no hidden cell. -/
theorem resolve (hi : i.Avoids hidden) (hs : s.Avoids hidden own) (hscope : ∀ m ∈ i.scope, own m)
    {text : String} {l : Option Location} {w : Word} (h : i.resolve s text l = .ok w) :
    w.Avoids hidden := by
  unfold Interp.resolve Interp.findWord at h
  split at h
  · rename_i v hv
    obtain rfl := Except.ok.inj h
    obtain ⟨r, hr, hv⟩ := List.exists_of_findSome?_eq_some hv
    rw [Word.Avoids]
    exact hi.readers r hr text v hv
  split at h
  · rename_i w' hfound
    obtain rfl := Except.ok.inj h
    obtain ⟨m, hm, hfound⟩ := List.exists_of_findSome?_eq_some hfound
    have hmodule : ∀ {k : Nat} {x : Module}, s.modules[k]? = some x → s.module k = x := by
      intro k x hx
      rw [Store.module, hx, Option.getD_some]
    refine of_findIn? (fun x hx w hw => ?_) (fun x hx e he => ?_) hfound
    · obtain ⟨k, hk, rfl⟩ := Array.mem_iff_getElem.mp hx
      exact hs.words k w (by rwa [hmodule (Array.getElem?_eq_getElem hk)])
    · rw [Word.Avoids, Val.avoids_variableRef]
      exact hs.vars (hscope m hm) e (by rwa [hmodule hx])
  · cases h

end Interp.Avoids

/-! ## Copies of modules -/

namespace Store

variable {s : Store} {m : Nat}

/-- Variables with new cells, each with the value of the variable that it is the copy of. -/
def copyCells (s : Store) (entries : List (String × Nat)) : List (String × Nat) × Store :=
  entries.foldl (fun (acc, s) (name, cell) =>
    let (cell', s) := s.addCell (s.fetch cell)
    (acc ++ [(name, cell')], s)) ([], s)

theorem copyModule_eq (s : Store) (m : Nat) :
    s.copyModule m = (s.copyCells (s.module m).cells).2.addModule
      { s.module m with cells := (s.copyCells (s.module m).cells).1 } := rfl

/-- The second variable is a new one, with the name and the value of the first. -/
structure CopiesCell (s t : Store) (old new : String × Nat) : Prop where
  name : new.1 = old.1
  fresh : s.cells.size ≤ new.2
  cell_lt : new.2 < t.cells.size
  value : t.fetch new.2 = s.fetch old.2

/-- What copying variables leaves: nothing but cells is new, and all values are old ones. -/
structure CopiesCells (s : Store) (entries : List (String × Nat))
    (copy : List (String × Nat) × Store) : Prop where
  rest : copy.2 = { s with cells := copy.2.cells }
  size : s.cells.size ≤ copy.2.cells.size
  kept : ∀ c < s.cells.size, copy.2.fetch c = s.fetch c
  values : ∀ c, ∃ d, copy.2.fetch c = s.fetch d
  entries : List.Forall₂ (s.CopiesCell copy.2) entries copy.1

/-- One more variable. -/
theorem CopiesCells.concat {entries acc : List (String × Nat)} {t : Store}
    (h : s.CopiesCells entries (acc, t)) {name : String} {cell : Nat}
    (hcell : cell < s.cells.size) :
    s.CopiesCells (entries ++ [(name, cell)])
      (acc ++ [(name, t.cells.size)], (t.addCell (t.fetch cell)).2) := by
  have hsize : (t.addCell (t.fetch cell)).2.cells.size = t.cells.size + 1 := Array.size_push ..
  have hold : ∀ c < t.cells.size, (t.addCell (t.fetch cell)).2.fetch c = t.fetch c := fun c hc => by
    rw [fetch_addCell, if_neg (Nat.ne_of_lt hc)]
  have hnew : (t.addCell (t.fetch cell)).2.fetch t.cells.size = s.fetch cell := by
    rw [fetch_addCell, if_pos rfl, h.kept cell hcell]
  refine ⟨?_, hsize ▸ Nat.le_succ_of_le h.size, fun c hc => ?_, fun c => ?_, ?_⟩
  · exact congrArg (fun u : Store => (u.addCell (t.fetch cell)).2) h.rest
  · exact (hold c (Nat.lt_of_lt_of_le hc h.size)).trans (h.kept c hc)
  · by_cases hc : c = t.cells.size
    · exact ⟨cell, hc ▸ hnew⟩
    · rw [fetch_addCell, if_neg hc]
      exact h.values c
  · refine List.rel_append (h.entries.imp fun e e' he => ?_) (.cons ?_ .nil)
    · exact ⟨he.name, he.fresh, hsize ▸ Nat.lt_succ_of_lt he.cell_lt,
        (hold _ he.cell_lt).trans he.value⟩
    · exact ⟨rfl, h.size, hsize ▸ Nat.lt_succ_self _, hnew⟩

theorem copiesCells (s : Store) {entries : List (String × Nat)}
    (h : ∀ e ∈ entries, e.2 < s.cells.size) : s.CopiesCells entries (s.copyCells entries) := by
  induction entries using List.reverseRecOn with
  | nil => exact ⟨rfl, Nat.le_refl _, fun _ _ => rfl, fun c => ⟨c, rfl⟩, .nil⟩
  | append_singleton entries e ih =>
    have hcopy := ih fun e he => h e (List.mem_append_left _ he)
    unfold copyCells at hcopy ⊢
    rw [List.foldl_concat]
    exact hcopy.concat (h e (List.mem_append_right _ (List.mem_singleton_self _)))

/-- A variable is found in the copy if it is in the original. -/
theorem lookup_of_copies {s t : Store} {entries copies : List (String × Nat)}
    (h : List.Forall₂ (s.CopiesCell t) entries copies) {name : String} {cell : Nat}
    (hcell : entries.lookup name = some cell) :
    ∃ cell', copies.lookup name = some cell' ∧ s.cells.size ≤ cell' ∧
      t.fetch cell' = s.fetch cell := by
  induction h with
  | nil => cases hcell
  | @cons e e' _ _ he _ ih =>
    obtain ⟨k, c⟩ := e
    obtain ⟨k', c'⟩ := e'
    obtain rfl : k' = k := he.name
    rw [List.lookup_cons] at hcell ⊢
    split at hcell
    · rename_i hk
      obtain rfl := Option.some.inj hcell
      exact ⟨c', rfl, he.fresh, he.value⟩
    · exact ih hcell

theorem fresh_of_copies {s t : Store} {entries copies : List (String × Nat)}
    (h : List.Forall₂ (s.CopiesCell t) entries copies) :
    ∀ e ∈ copies, s.cells.size ≤ e.2 ∧ e.2 < t.cells.size := by
  induction h with
  | nil => nofun
  | cons he _ ih => exact List.forall_mem_cons.mpr ⟨⟨he.fresh, he.cell_lt⟩, ih⟩

/-! ## Modules -/

theorem WellFormed.copies (hs : s.WellFormed) (m : Nat) :
    s.CopiesCells (s.module m).cells (s.copyCells (s.module m).cells) :=
  s.copiesCells (hs.cells m)

/-- All modules are as they were, and one is new. -/
theorem module_copyModule (hs : s.WellFormed) (k : Nat) :
    (s.copyModule m).2.module k =
      if k = s.modules.size then
        { s.module m with cells := (s.copyCells (s.module m).cells).1 }
      else s.module k := by
  rw [copyModule_eq, module_addModule, (hs.copies m).rest]
  rfl

theorem size_copyModule (hs : s.WellFormed) :
    (s.copyModule m).1 = s.modules.size ∧
      (s.copyModule m).2.modules.size = s.modules.size + 1 := by
  rw [copyModule_eq, (hs.copies m).rest]
  exact ⟨rfl, Array.size_push ..⟩

/-- All cells are as they were. -/
theorem fetch_copyModule (hs : s.WellFormed) {c : Nat} (hc : c < s.cells.size) :
    (s.copyModule m).2.fetch c = s.fetch c :=
  (hs.copies m).kept c hc

/-- Each variable has a copy, which is new and has its value. -/
theorem cell?_copyModule (hs : s.WellFormed) {name : String} {c : Nat}
    (hc : (s.module m).cell? name = some c) :
    ∃ c', ((s.copyModule m).2.module (s.copyModule m).1).cell? name = some c' ∧
      s.cells.size ≤ c' ∧ (s.copyModule m).2.fetch c' = s.fetch c := by
  rw [module_copyModule hs, if_pos (size_copyModule hs).1]
  exact lookup_of_copies (hs.copies m).entries hc

/-- The variables of the modules are the old ones, and those of the copy are new. -/
theorem cells_copyModule (hs : s.WellFormed) {k : Nat} {e : String × Nat}
    (he : e ∈ ((s.copyModule m).2.module k).cells) :
    e ∈ (s.module k).cells ∨
      k = s.modules.size ∧ s.cells.size ≤ e.2 ∧ e.2 < (s.copyModule m).2.cells.size := by
  rw [module_copyModule hs] at he
  split at he
  · rename_i hk
    exact .inr ⟨hk, fresh_of_copies (hs.copies m).entries e he⟩
  · exact .inl he

theorem WellFormed.copyModule (hs : s.WellFormed) : (s.copyModule m).2.WellFormed := by
  have hcells : s.cells.size ≤ (s.copyModule m).2.cells.size := (hs.copies m).size
  refine ⟨fun k c hc => ?_, fun k e he => ?_, fun {k n} e he e' he' heq => ?_⟩
  · rw [(size_copyModule hs).2]
    rw [module_copyModule hs] at hc
    split at hc
    · exact Nat.lt_succ_of_lt (hs.children m c hc)
    · exact Nat.lt_succ_of_lt (hs.children k c hc)
  · obtain he | he := cells_copyModule hs he
    · exact Nat.lt_of_lt_of_le (hs.cells k e he) hcells
    · exact he.2.2
  · obtain hold | ⟨hk, hfresh, -⟩ := cells_copyModule hs he
    · obtain hold' | ⟨-, hfresh', -⟩ := cells_copyModule hs he'
      · exact hs.apart e hold e' hold' heq
      · exact absurd (hs.cells k e hold) (Nat.not_lt.mpr (heq ▸ hfresh'))
    · obtain hold' | ⟨hn, -⟩ := cells_copyModule hs he'
      · exact absurd (hs.cells n e' hold') (Nat.not_lt.mpr (heq ▸ hfresh))
      · exact hk.trans hn.symm

/-- The copy has the words of the original, and refers to no other cells than those. -/
theorem Avoids.copyModule {hidden own own' : Nat → Prop} (hs : s.WellFormed)
    (h : s.Avoids hidden own) (hhidden : ∀ {c}, hidden c → c < s.cells.size)
    (hown : ∀ {k}, own' k → ∀ e ∈ (s.module k).cells, ¬ hidden e.2) :
    (s.copyModule m).2.Avoids hidden own' := by
  refine ⟨fun k w hw => ?_, fun {k} hk e he => ?_, fun c => ?_, fun k => ?_⟩
  · rw [module_copyModule hs] at hw
    split at hw
    · exact h.words m w hw
    · exact h.words k w hw
  · obtain he | ⟨-, hfresh, -⟩ := cells_copyModule hs he
    · exact hown hk e he
    · exact fun hh => Nat.not_lt.mpr hfresh (hhidden hh)
  · obtain ⟨d, hd⟩ := (hs.copies m).values c
    exact (hd : (s.copyModule m).2.fetch c = s.fetch d) ▸ h.cells d
  · rw [copyModule_eq, (hs.copies m).rest]
    exact h.memos k

end Store

end Wordstack
