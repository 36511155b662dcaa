import Wordstack.Proofs.Machine.Coupling
import Wordstack.Proofs.Machine.Stores
import Wordstack.Proofs.Word.Paired

/-!
# Twin runs

Two runs over the same stateless modules, from stores in which different other things were made.
What a run makes itself has the next identities in order, so a new identity of the one run stands
for the one of the other run that was given out at the same time.

- **Tails** (`Later`, `Tails`): arrays from two places on, one by one.
- **Libraries** (`Library`): stateless modules with all that they import, in a store. Other stores
  keep a library (`Library.Kept`) that have the same modules in it.
- **Twins** (`Twins`): a library and the two stores from which the runs start, and which identities
  stand for each other in them (`Twins.pairing`).
- **Stores** (`Twins.Stores`): both keep the library, and what is new is the same but for identities.
  Each operation on stores has a lemma.
-/

namespace Wordstack

open Relator

/-! ## Tails -/

/-- Numbers that lie equally far behind two places. -/
def Later (a b m n : Nat) : Prop := a ≤ m ∧ m + b = a + n

section Tails

variable {a b m n : Nat}

theorem Later.unique (a b : Nat) : BiUnique (Later a b) :=
  ⟨fun _ _ _ h h' => by unfold Later at h h'; omega,
    fun _ _ _ h h' => by unfold Later at h h'; omega⟩

theorem Later.start (a b : Nat) : Later a b a b := ⟨Nat.le_refl a, rfl⟩

theorem Later.add (h : Later a b m n) (k : Nat) : Later a b (m + k) (n + k) := by
  unfold Later at h ⊢
  omega

theorem Later.le_left (h : Later a b m n) : a ≤ m := h.1

theorem Later.le_right (h : Later a b m n) : b ≤ n := by
  unfold Later at h
  omega

/-- The order of numbers is the same behind both places. -/
theorem Later.lt_iff {k l : Nat} (h : Later a b m n) (h' : Later a b k l) : m < k ↔ n < l := by
  unfold Later at h h'
  omega

/-- Arrays that have the same number of items from two places on, which are in a relation one by
one. -/
structure Tails {α : Type} (R : α → α → Prop) (d : α) (a b : Nat) (xs ys : Array α) : Prop where
  size : Later a b xs.size ys.size
  item : ∀ {i j}, Later a b i j → R (xs[i]?.getD d) (ys[j]?.getD d)

namespace Tails

variable {α : Type} {R : α → α → Prop} {d x y : α} {xs ys : Array α}

/-- Nothing stands behind the ends. -/
theorem start (h : R d d) (xs ys : Array α) : Tails R d xs.size ys.size xs ys := by
  refine ⟨.start _ _, fun hij => ?_⟩
  rw [Array.getElem?_eq_none hij.le_left, Array.getElem?_eq_none hij.le_right]
  exact h

theorem push (h : Tails R d a b xs ys) (hxy : R x y) : Tails R d a b (xs.push x) (ys.push y) := by
  refine ⟨?_, fun {i j} hij => ?_⟩
  · rw [Array.size_push, Array.size_push]
    exact h.size.add 1
  · have hlast : i = xs.size ↔ j = ys.size := rel_eq (Later.unique a b) hij h.size
    rw [Array.getElem?_push, Array.getElem?_push]
    by_cases hi : i = xs.size
    · rw [if_pos hi, if_pos (hlast.mp hi)]
      exact hxy
    · rw [if_neg hi, if_neg fun hj => hi (hlast.mpr hj)]
      exact h.item hij

theorem modify (h : Tails R d a b xs ys) {i j : Nat} (hij : Later a b i j) {f g : α → α}
    (hfg : ∀ {x y}, R x y → R (f x) (g y)) : Tails R d a b (xs.modify i f) (ys.modify j g) := by
  refine ⟨?_, fun {k l} hkl => ?_⟩
  · rw [Array.size_modify, Array.size_modify]
    exact h.size
  · have hitem := h.item hkl
    have hplace : i = k ↔ j = l := rel_eq (Later.unique a b) hij hkl
    have hbound : k < xs.size ↔ l < ys.size := hkl.lt_iff h.size
    rw [Array.getElem?_modify, Array.getElem?_modify]
    by_cases hi : i = k
    · rw [if_pos hi, if_pos (hplace.mp hi)]
      by_cases hk : k < xs.size
      · rw [Array.getElem?_eq_getElem hk, Array.getElem?_eq_getElem (hbound.mp hk)] at hitem ⊢
        exact hfg hitem
      · have hl : ¬ l < ys.size := fun hl => hk (hbound.mpr hl)
        rw [Array.getElem?_eq_none (Nat.not_lt.mp hk), Array.getElem?_eq_none (Nat.not_lt.mp hl)]
          at hitem ⊢
        exact hitem
    · rw [if_neg hi, if_neg fun hj => hi (hplace.mpr hj)]
      exact hitem

theorem set (h : Tails R d a b xs ys) {i j : Nat} (hij : Later a b i j) (hxy : R x y) :
    Tails R d a b (xs.setIfInBounds i x) (ys.setIfInBounds j y) := by
  have hmodify : ∀ (zs : Array α) (k : Nat) (z : α),
      zs.setIfInBounds k z = zs.modify k fun _ => z := by
    intro zs k z
    refine Array.ext (by simp) fun l hl hl' => ?_
    rw [Array.getElem_setIfInBounds, Array.getElem_modify]
  rw [hmodify, hmodify]
  exact h.modify hij fun _ => hxy

end Tails

end Tails

/-! ## Libraries -/

/-- Modules of a store that hold no state, with all that they import. -/
structure Library where
  base : Store
  known : Nat → Prop
  exist : ∀ {m}, known m → m < base.modules.size
  cells : ∀ {m}, known m → (base.module m).cells = []
  words : ∀ {m}, known m → ∀ w ∈ (base.module m).words, w.Stateless base.nextId
  imports : ∀ {m}, known m → ∀ imp ∈ (base.module m).imports, known imp.module

/-- A store in which the library is as it was. -/
structure Library.Kept (L : Library) (s : Store) : Prop where
  size : L.base.modules.size ≤ s.modules.size
  ids : L.base.nextId ≤ s.nextId
  now : s.now = L.base.now
  module : ∀ {m}, L.known m → s.module m = L.base.module m

namespace Library.Kept

variable {L : Library} {s : Store}

theorem base (L : Library) : L.Kept L.base := ⟨Nat.le_refl _, Nat.le_refl _, rfl, fun _ => rfl⟩

/-- Only modules of the library matter. -/
theorem same (h : L.Kept s) {t : Store} (hm : t.modules = s.modules) (hn : t.now = s.now)
    (hi : s.nextId ≤ t.nextId) : L.Kept t := by
  refine ⟨hm ▸ h.size, Nat.le_trans h.ids hi, hn.trans h.now, fun hk => ?_⟩
  rw [Store.module, hm]
  exact h.module hk

theorem updateModule (h : L.Kept s) {m : Nat} (hm : L.base.modules.size ≤ m)
    (f : Module → Module) : L.Kept (s.updateModule m f) := by
  have hsize : (s.updateModule m f).modules.size = s.modules.size := Array.size_modify ..
  refine ⟨hsize ▸ h.size, h.ids, h.now, fun {k} hk => ?_⟩
  have hne : k ≠ m := fun e => Nat.not_lt.mpr hm (e ▸ L.exist hk)
  rw [Store.module_updateModule, if_neg fun e => hne e.1]
  exact h.module hk

theorem addModule (h : L.Kept s) (x : Module) : L.Kept (s.addModule x).2 := by
  have hsize : (s.addModule x).2.modules.size = s.modules.size + 1 := Array.size_push ..
  refine ⟨hsize ▸ Nat.le_succ_of_le h.size, h.ids, h.now, fun {k} hk => ?_⟩
  have hne : k ≠ s.modules.size := Nat.ne_of_lt (Nat.lt_of_lt_of_le (L.exist hk) h.size)
  rw [Store.module_addModule, if_neg hne]
  exact h.module hk

end Library.Kept

/-! ## Twins -/

/-- Stores from which the same is run, both with one library. -/
structure Twins extends Library where
  first : Store
  second : Store
  first_kept : toLibrary.Kept first
  second_kept : toLibrary.Kept second

namespace Twins

variable {T : Twins} {m n : Nat}

/-- Modules that the runs have made at the same time. -/
def Made (T : Twins) (m n : Nat) : Prop := Later T.first.modules.size T.second.modules.size m n

/-- Modules that code can find by name: those of the library that are ready, and new ones. -/
def Found (T : Twins) (m n : Nat) : Prop :=
  (T.known m ∧ (T.base.module m).isReady = true) ∧ n = m ∨ T.Made m n

/-- Numbers of the library stand for themselves, and new ones for those made at the same time. -/
theorem unique_beside {known : Nat → Prop} {a b : Nat} (h : ∀ k, known k → k < a ∧ k < b) :
    BiUnique fun m n => known m ∧ n = m ∨ Later a b m n := by
  constructor
  · rintro m m' n (⟨hk, rfl⟩ | hl) (⟨hk', rfl⟩ | hl')
    · rfl
    · exact absurd (h _ hk).2 (Nat.not_lt.mpr hl'.le_right)
    · exact absurd (h _ hk').2 (Nat.not_lt.mpr hl.le_right)
    · exact (Later.unique a b).1 hl hl'
  · rintro m n n' (⟨hk, rfl⟩ | hl) (⟨hk', rfl⟩ | hl')
    · rfl
    · exact absurd (h _ hk).1 (Nat.not_lt.mpr hl'.le_left)
    · exact absurd (h _ hk').1 (Nat.not_lt.mpr hl.le_left)
    · exact (Later.unique a b).2 hl hl'

/-- Which identities stand for each other in the two runs. -/
def pairing (T : Twins) : Pairing where
  module m n := T.known m ∧ n = m ∨ T.Made m n
  cell := Later T.first.cells.size T.second.cells.size
  memo := Later T.first.memos.size T.second.memos.size
  id a b := a < T.base.nextId ∧ b = a ∨ Later T.first.nextId T.second.nextId a b
  module_unique := unique_beside fun _ hk =>
    ⟨Nat.lt_of_lt_of_le (T.exist hk) T.first_kept.size,
      Nat.lt_of_lt_of_le (T.exist hk) T.second_kept.size⟩
  cell_unique := Later.unique _ _
  memo_unique := Later.unique _ _
  id_unique := unique_beside fun _ hk =>
    ⟨Nat.lt_of_lt_of_le hk T.first_kept.ids, Nat.lt_of_lt_of_le hk T.second_kept.ids⟩

theorem Made.known (h : T.Made m n) : T.pairing.module m n := .inr h

theorem Made.found (h : T.Made m n) : T.Found m n := .inr h

theorem Found.known (h : T.Found m n) : T.pairing.module m n := h.imp_left fun h => ⟨h.1.1, h.2⟩

/-- A stateless word of the library stands for itself. -/
theorem paired_of_known (T : Twins) (hm : T.known m) :
    (T.base.module m).Paired T.pairing (T.base.module m) where
  name := rfl
  description := rfl
  runtimeSpecific := rfl
  words := List.forall₂_same.mpr fun w hw =>
    (T.words hm w hw).paired (P := T.pairing) fun _ hid => .inl ⟨hid, rfl⟩
  exports := rfl
  cells := by
    rw [T.cells hm]
    exact .nil
  imports := List.forall₂_same.mpr fun imp himp => ⟨.inl ⟨T.imports hm imp himp, rfl⟩, rfl⟩

/-! ## Stores -/

/-- The pools of connections of interpreters made at the same time. -/
def Pools (T : Twins) (p q : Nat) : Prop := Later T.first.pools.size T.second.pools.size p q

/-- New modules that are the same but for identities: they are ready, and so are their blocks, which
are new as well. -/
structure NewModules (T : Twins) (x y : Module) : Prop extends Module.Paired T.pairing x y where
  ready : x.isReady = true ∧ y.isReady = true
  children : List.Forall₂ (Named T.Made) x.children y.children

/-- Memos that remember the same but for identities. -/
structure Memos (T : Twins) (x y : Memo) : Prop where
  value : Option.Rel (Val.Paired T.pairing) x.value y.value
  outcomes : List.Forall₂ (ExceptPaired (Val.Paired T.pairing)) x.outcomes.toList y.outcomes.toList
  current : x.current = y.current

/-- Stores that both keep the library, in which all else that is new is the same but for identities.
Readings of the clock will be the same. -/
structure Stores (T : Twins) (s t : Store) : Prop where
  left : T.Kept s
  right : T.Kept t
  modules : Tails T.NewModules default T.first.modules.size T.second.modules.size s.modules t.modules
  cells : Tails (Val.Paired T.pairing) .null T.first.cells.size T.second.cells.size s.cells t.cells
  memos : Tails T.Memos {} T.first.memos.size T.second.memos.size s.memos t.memos
  /-- Connections are never used, but their names can be listed. -/
  pools : Tails (fun p q => p.map Prod.fst = q.map Prod.fst) [] T.first.pools.size
    T.second.pools.size s.pools t.pools
  ids : Later T.first.nextId T.second.nextId s.nextId t.nextId
  clock : ∀ n, s.clock (s.readings + n) = t.clock (t.readings + n)

namespace Stores

variable {s t : Store}

/-- Where the runs start nothing is new yet. -/
theorem start (T : Twins)
    (hclock : ∀ n, T.first.clock (T.first.readings + n) = T.second.clock (T.second.readings + n)) :
    T.Stores T.first T.second where
  left := T.first_kept
  right := T.second_kept
  modules := .start ⟨⟨rfl, rfl, rfl, .nil, rfl, .nil, .nil⟩, ⟨rfl, rfl⟩, .nil⟩ _ _
  cells := .start .null _ _
  memos := .start ⟨.none, .nil, rfl⟩ _ _
  pools := Tails.start (R := fun p q : List (String × Nat) => p.map Prod.fst = q.map Prod.fst)
    rfl _ _
  ids := .start _ _
  clock := hclock

/-! ### Modules -/

theorem new (h : T.Stores s t) (hmn : T.Made m n) : T.NewModules (s.module m) (t.module n) :=
  h.modules.item hmn

/-- Known modules are the same but for identities. -/
theorem modulesPaired (h : T.Stores s t) : ModulesPaired T.pairing s.modules t.modules := by
  intro m n hmn
  obtain ⟨hk, rfl⟩ | hmade := hmn
  · have hs : n < s.modules.size := Nat.lt_of_lt_of_le (T.exist hk) h.left.size
    have ht : n < t.modules.size := Nat.lt_of_lt_of_le (T.exist hk) h.right.size
    have hleft : s.modules[n] = T.base.module n := by
      rw [← h.left.module hk, Store.module, Array.getElem?_eq_getElem hs, Option.getD_some]
    have hright : t.modules[n] = T.base.module n := by
      rw [← h.right.module hk, Store.module, Array.getElem?_eq_getElem ht, Option.getD_some]
    rw [Array.getElem?_eq_getElem hs, Array.getElem?_eq_getElem ht, hleft, hright]
    exact .some (T.paired_of_known hk)
  · have hnew := (h.modules.item hmade).toPaired
    have hbound := hmade.lt_iff h.modules.size
    by_cases hm : m < s.modules.size
    · rw [Array.getElem?_eq_getElem hm, Array.getElem?_eq_getElem (hbound.mp hm)] at hnew ⊢
      exact .some hnew
    · have hn : ¬ n < t.modules.size := fun hn => hm (hbound.mpr hn)
      rw [Array.getElem?_eq_none (Nat.not_lt.mp hm), Array.getElem?_eq_none (Nat.not_lt.mp hn)]
      exact .none

theorem name_eq (h : T.Stores s t) (hmn : T.pairing.module m n) :
    (s.module m).name = (t.module n).name := by
  obtain ⟨hk, rfl⟩ | hmade := hmn
  · rw [h.left.module hk, h.right.module hk]
  · exact (h.new hmade).name

/-- What code can find by name is ready. -/
theorem ready (h : T.Stores s t) (hmn : T.Found m n) :
    (s.module m).isReady = true ∧ (t.module n).isReady = true := by
  obtain ⟨⟨hk, hready⟩, rfl⟩ | hmade := hmn
  · rw [h.left.module hk, h.right.module hk]
    exact ⟨hready, hready⟩
  · exact (h.new hmade).ready

theorem updateModule (h : T.Stores s t) (hmn : T.Made m n) {f g : Module → Module}
    (hfg : ∀ {x y}, T.NewModules x y → T.NewModules (f x) (g y)) :
    T.Stores (s.updateModule m f) (t.updateModule n g) :=
  { h with
    left := h.left.updateModule (Nat.le_trans T.first_kept.size hmn.le_left) f
    right := h.right.updateModule (Nat.le_trans T.second_kept.size hmn.le_right) g
    modules := h.modules.modify hmn hfg }

theorem addModule (h : T.Stores s t) {x y : Module} (hxy : T.NewModules x y) :
    T.Made (s.addModule x).1 (t.addModule y).1 ∧ T.Stores (s.addModule x).2 (t.addModule y).2 :=
  ⟨h.modules.size,
    { h with
      left := h.left.addModule x
      right := h.right.addModule y
      modules := h.modules.push hxy }⟩

/-! ### Words -/

/-- As many identities are given out on either side. -/
theorem takeIds (h : T.Stores s t) (n : Nat) :
    T.Stores { s with nextId := s.nextId + n } { t with nextId := t.nextId + n } :=
  { h with
    left := h.left.same rfl rfl (Nat.le_add_right _ n)
    right := h.right.same rfl rfl (Nat.le_add_right _ n)
    ids := h.ids.add n }

theorem freshId (h : T.Stores s t) :
    T.pairing.id s.freshId.1 t.freshId.1 ∧ T.Stores s.freshId.2 t.freshId.2 :=
  ⟨.inr h.ids, h.takeIds 1⟩

theorem addWord (h : T.Stores s t) (hmn : T.Made m n) {v w : Word} (hw : v.Paired T.pairing w) :
    T.Stores (s.addWord m v) (t.addWord n w) :=
  h.freshId.2.updateModule hmn fun hxy =>
    { hxy with toPaired := hxy.toPaired.addWord h.freshId.1 hw }

/-- A new memo remembers nothing on either side. -/
theorem pushMemo (h : T.Stores s t) :
    T.pairing.memo s.memos.size t.memos.size ∧
      T.Stores { s with memos := s.memos.push {} } { t with memos := t.memos.push {} } :=
  ⟨h.memos.size,
    { h with
      left := h.left.same rfl rfl Nat.le.refl
      right := h.right.same rfl rfl Nat.le.refl
      memos := h.memos.push ⟨.none, .nil, rfl⟩ }⟩

theorem addMemoWords (h : T.Stores s t) (hmn : T.Made m n) {v w : Word}
    (hw : v.Paired T.pairing w) : T.Stores (s.addMemoWords m v) (t.addMemoWords n w) := by
  obtain ⟨hmemo, hs⟩ := h.pushMemo
  have hlabel : ∀ (suffix : String) (l : Option Location),
      WordLabel.Paired T.pairing { name := v.name ++ suffix, location := l }
        { name := w.name ++ suffix, location := l } := fun suffix l =>
    ⟨congrArg (· ++ suffix) hw.name_eq, .none, rfl, rfl, rfl, rfl⟩
  have hfirst : WordLabel.Paired T.pairing { name := v.name, location := v.label.location }
      { name := w.name, location := w.label.location } :=
    ⟨hw.name_eq, .none, rfl, rfl, rfl, hw.label.location⟩
  unfold Store.addMemoWords
  exact ((hs.addWord hmn (.memo hfirst hmemo hw)).addWord hmn
    (.memoRefresh (hlabel _ _) hmemo hw)).addWord hmn (.memoReload (hlabel _ _) hmemo hw)

/-! ### Variables and memos -/

theorem fetch (h : T.Stores s t) {c d : Nat} (hcd : T.pairing.cell c d) :
    (s.fetch c).Paired T.pairing (t.fetch d) :=
  h.cells.item hcd

theorem put (h : T.Stores s t) {c d : Nat} (hcd : T.pairing.cell c d) {v w : Val}
    (hv : v.Paired T.pairing w) : T.Stores (s.put c v) (t.put d w) :=
  { h with
    left := h.left.same rfl rfl Nat.le.refl
    right := h.right.same rfl rfl Nat.le.refl
    cells := h.cells.set hcd hv }

theorem addCell (h : T.Stores s t) {v w : Val} (hv : v.Paired T.pairing w) :
    T.pairing.cell (s.addCell v).1 (t.addCell w).1 ∧
      T.Stores (s.addCell v).2 (t.addCell w).2 :=
  ⟨h.cells.size,
    { h with
      left := h.left.same rfl rfl Nat.le.refl
      right := h.right.same rfl rfl Nat.le.refl
      cells := h.cells.push hv }⟩

theorem variableCell (h : T.Stores s t) (hmn : T.Made m n) (name : String) :
    T.pairing.cell (s.variableCell m name .null).1 (t.variableCell n name .null).1 ∧
      T.Stores (s.variableCell m name .null).2 (t.variableCell n name .null).2 := by
  have hcell := (h.new hmn).toPaired.cell? name
  unfold Store.variableCell
  generalize (s.module m).cell? name = a, (t.module n).cell? name = b at hcell
  cases hcell with
  | some hcell => exact ⟨hcell, h⟩
  | none =>
    obtain ⟨hcell, hs⟩ := h.addCell .null
    exact ⟨hcell, hs.updateModule hmn fun hxy =>
      { hxy with toPaired := hxy.toPaired.addVariable name hcell }⟩

theorem memo (h : T.Stores s t) {c d : Nat} (hcd : T.pairing.memo c d) :
    T.Memos (s.memo c) (t.memo d) :=
  h.memos.item hcd

theorem setMemo (h : T.Stores s t) {c d : Nat} (hcd : T.pairing.memo c d) {x y : Memo}
    (hxy : T.Memos x y) : T.Stores (s.setMemo c x) (t.setMemo d y) :=
  { h with
    left := h.left.same rfl rfl Nat.le.refl
    right := h.right.same rfl rfl Nat.le.refl
    memos := h.memos.set hcd hxy }

/-! ### Connections -/

theorem addPool (h : T.Stores s t) :
    T.Pools s.addPool.1 t.addPool.1 ∧ T.Stores s.addPool.2 t.addPool.2 :=
  ⟨h.pools.size,
    { h with
      left := h.left.same rfl rfl Nat.le.refl
      right := h.right.same rfl rfl Nat.le.refl
      pools := h.pools.push rfl }⟩

/-- The same names are connected. -/
theorem pool (h : T.Stores s t) {p q : Nat} (hpq : T.Pools p q) :
    (s.pool p).map Prod.fst = (t.pool q).map Prod.fst :=
  h.pools.item hpq

/-- Whether a name is connected depends on the names only. -/
theorem isSome_lookup {α : Type} (xs : List (String × α)) (name : String) :
    (xs.lookup name).isSome = (xs.map Prod.fst).contains name := by
  induction xs with
  | nil => rfl
  | cons x xs ih =>
    rw [List.lookup_cons, List.map_cons, List.contains_cons, ← ih]
    split
    · rename_i h
      simp [h]
    · rename_i h
      simp [h]

theorem connect (h : T.Stores s t) {p q : Nat} (hpq : T.Pools p q) (name address : String)
    (timeout : Binary64) :
    T.Stores (s.connect p name address timeout) (t.connect q name address timeout) := by
  have hlookup : ((s.pool p).lookup name).isSome = ((t.pool q).lookup name).isSome := by
    rw [isSome_lookup, isSome_lookup, h.pool hpq]
  unfold Store.connect
  cases hs : (s.pool p).lookup name <;> cases ht : (t.pool q).lookup name <;>
    rw [hs, ht] at hlookup <;> try cases hlookup
  case none.none =>
    exact { h with
      left := h.left.same rfl rfl Nat.le.refl
      right := h.right.same rfl rfl Nat.le.refl
      pools := h.pools.set hpq (by simp [h.pool hpq]) }
  case some.some => exact h

theorem disconnect (h : T.Stores s t) {p q : Nat} (hpq : T.Pools p q) (name : String) :
    T.Stores (s.disconnect p name) (t.disconnect q name) := by
  have hlookup : ((s.pool p).lookup name).isSome = ((t.pool q).lookup name).isSome := by
    rw [isSome_lookup, isSome_lookup, h.pool hpq]
  have hfilter : ∀ xs : List (String × Nat),
      (xs.filter fun e => e.1 != name).map Prod.fst = (xs.map Prod.fst).filter (· != name) :=
    fun _ => by rw [List.filter_map]; rfl
  unfold Store.disconnect
  cases hs : (s.pool p).lookup name <;> cases ht : (t.pool q).lookup name <;>
    rw [hs, ht] at hlookup <;> try cases hlookup
  case none.none => exact h
  case some.some =>
    exact { h with
      left := h.left.same rfl rfl Nat.le.refl
      right := h.right.same rfl rfl Nat.le.refl
      pools := h.pools.set hpq (by rw [hfilter, hfilter, h.pool hpq]) }

/-! ### The clock and the console -/

theorem readClock (h : T.Stores s t) :
    s.readClock.1 = t.readClock.1 ∧ T.Stores s.readClock.2 t.readClock.2 := by
  refine ⟨h.clock 0, { h with
    left := h.left.same rfl rfl Nat.le.refl
    right := h.right.same rfl rfl Nat.le.refl
    clock := fun n => ?_ }⟩
  have hn := h.clock (n + 1)
  rwa [Nat.add_comm n 1, ← Nat.add_assoc, ← Nat.add_assoc] at hn

theorem print (h : T.Stores s t) (line : String) : T.Stores (s.print line) (t.print line) :=
  { h with
    left := h.left.same rfl rfl Nat.le.refl
    right := h.right.same rfl rfl Nat.le.refl }

/-- What is on the console does not matter. -/
theorem log (h : T.Stores s t) (level : LogLevel) (scope message : String) :
    T.Stores (s.log level scope message) (t.log level scope message) := by
  have hlog : ∀ s : Store, ∃ console, s.log level scope message = { s with console } := by
    intro s
    unfold Store.log
    split
    · exact ⟨_, rfl⟩
    · exact ⟨s.console, rfl⟩
  obtain ⟨_, hs⟩ := hlog s
  obtain ⟨_, ht⟩ := hlog t
  rw [hs, ht]
  exact { h with
    left := h.left.same rfl rfl Nat.le.refl
    right := h.right.same rfl rfl Nat.le.refl }

end Stores

end Twins

end Wordstack
