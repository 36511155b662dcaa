import Wordstack.Proofs.Machine.Hiding
import Wordstack.Proofs.Machine.Keeping
import Wordstack.Proofs.Machine.Making
import Wordstack.Proofs.Vocabulary.Avoiding

/-!
# Territories

Code changes modules only while they are in scope, and brings only those into scope that it makes
itself, that are not ready yet, or that are blocks inside of such. It changes variables only if it
finds them by name in such a module, or is given a reference to them.

- **Territories** (`Territory`): the modules that code may come into, among them all new ones, and
  the variables that are hidden from it. What it finds by name is a module of the territory, or was
  ready before (`Territory.Known`).
- **Stores** (`Territory.Holds`): no module outside has changed, those that were ready still are,
  none has another name or source, and no hidden variable has changed.
- **Interpreters** (`Territory.Within`): only modules of the territory are in scope.
- **Operations** on modules and stores, one lemma each.
- **Everywhere** (`Territory.everywhere`): code that may change everything.
-/

namespace Wordstack

/-- The modules that code may come into, in a store that it starts from, and the variables that are
hidden from it. Blocks inside of such a module are such modules, and the modules that can be served
to others were ready. -/
structure Territory where
  base : Store
  own : Nat → Prop
  /-- The modules that may be blocks inside of others. -/
  block : Nat → Prop
  hidden : Nat → Prop
  own_of_block : ∀ {m}, block m → own m
  new : ∀ {m}, base.modules.size ≤ m → block m
  inner : ∀ {m}, own m → ∀ c ∈ (base.module m).children, block c.2
  served : ∀ p ∈ base.endpoints, ∀ e ∈ p.runtime.registry.entries,
    own e.2 ∨ (base.module e.2).isReady = true
  existing : ∀ {c}, hidden c → c < base.cells.size
  avoids : base.Avoids hidden own

/-- The name and the source of a module, which no code changes. -/
def Module.fixed (x : Module) : String × String := (x.name, x.source)

namespace Territory

variable {T : Territory} {s t : Store} {i : Interp} {m : Nat}

/-- The modules that code can find by name. -/
def Known (T : Territory) (m : Nat) : Prop := T.own m ∨ (T.base.module m).isReady = true

/-- Stores in which nothing outside of the territory has changed. -/
structure Holds (T : Territory) (s : Store) : Prop where
  size : T.base.modules.size ≤ s.modules.size
  cells : T.base.cells.size ≤ s.cells.size
  endpoints : s.endpoints = T.base.endpoints
  kept : ∀ {m}, ¬ T.own m → s.module m = T.base.module m
  ready : ∀ {m}, (T.base.module m).isReady = true → (s.module m).isReady = true
  children : ∀ {m}, T.own m → ∀ c ∈ (s.module m).children, T.block c.2
  fetch : ∀ {c}, T.hidden c → s.fetch c = T.base.fetch c
  avoids : s.Avoids T.hidden T.own
  wellFormed : T.base.WellFormed → s.WellFormed
  fixed : ∀ {m}, m < T.base.modules.size → (s.module m).fixed = (T.base.module m).fixed

/-- Interpreters that are in the territory, do not know of other modules that are not ready or of
hidden variables, have a given outermost module, and are running the sources of given modules. -/
structure Within (T : Territory) (home : Nat) (busy : List Nat) (i : Interp) : Prop where
  app : i.app = home
  home : T.own home
  scope : ∀ m ∈ i.scope, T.own m
  registered : ∀ e ∈ i.registered, T.Known e.2
  registry : ∀ e ∈ i.registry.entries, T.Known e.2
  pending : ∀ m ∈ i.pending, T.Known m
  initializing : i.initializing = busy
  avoids : i.Avoids T.hidden

/-- The guard of code that is in the territory. -/
def guard (T : Territory) (home : Nat) (busy : List Nat) : Guard := ⟨T.Within home busy, T.Holds⟩

/-- The guard of code that works on other interpreters only. -/
def around (T : Territory) (H : Interp → Prop) : Guard := ⟨H, T.Holds⟩

theorem holds_base (T : Territory) : T.Holds T.base :=
  ⟨Nat.le_refl _, Nat.le_refl _, rfl, fun _ => rfl, id, T.inner, fun _ => rfl, T.avoids, id,
    fun _ => rfl⟩

/-- A module that is as ready as before and has the same name, source and variables, and whose words
and blocks are old ones, or words without references to hidden cells and blocks that exist. -/
structure Grows (T : Territory) (s : Store) (x y : Module) : Prop where
  fixed : y.fixed = x.fixed
  ready : x.isReady = true → y.isReady = true
  cells : y.cells = x.cells
  words : ∀ w ∈ y.words, w ∈ x.words ∨ w.Avoids T.hidden
  children : ∀ c ∈ y.children, c ∈ x.children ∨ T.block c.2 ∧ c.2 < s.modules.size

/-- A change of imports, exports or texts. -/
theorem Grows.same {x y : Module} (hr : x.isReady = true → y.isReady = true := by exact id)
    (hc : y.cells = x.cells := by rfl) (hw : y.words = x.words := by rfl)
    (hb : y.children = x.children := by rfl) (hf : y.fixed = x.fixed := by rfl) : T.Grows s x y :=
  ⟨hf, hr, hc, fun _ h => .inl (hw ▸ h), fun _ h => .inl (hb ▸ h)⟩

/-! ## Stores -/

namespace Holds

theorem same (h : T.Holds s) (hm : t.modules = s.modules := by rfl)
    (hc : t.cells = s.cells := by rfl) (hk : t.memos = s.memos := by rfl)
    (he : t.endpoints = s.endpoints := by rfl) : T.Holds t := by
  have hmodule : t.module = s.module := by
    funext m
    rw [Store.module, hm]
    rfl
  have hfetch : t.fetch = s.fetch := by
    funext c
    rw [Store.fetch, hc]
    rfl
  have hmemo : t.memo = s.memo := by
    funext k
    rw [Store.memo, hk]
    rfl
  refine ⟨hm ▸ h.size, hc ▸ h.cells, he.trans h.endpoints, fun hn => hmodule ▸ h.kept hn,
    fun hr => hmodule ▸ h.ready hr, hmodule ▸ h.children, fun hh => hfetch ▸ h.fetch hh, ?_, ?_,
    fun hk => hmodule ▸ h.fixed hk⟩
  · exact ⟨hmodule ▸ h.avoids.words, hmodule ▸ h.avoids.vars, hfetch ▸ h.avoids.cells,
      hmemo ▸ h.avoids.memos⟩
  · intro hbase
    have hs := h.wellFormed hbase
    exact ⟨hmodule ▸ hm ▸ hs.children, hmodule ▸ hc ▸ hs.cells, hmodule ▸ hs.apart⟩

/-- A module that is not ready is one of the territory. -/
theorem own_of_not_ready (h : T.Holds s) (hk : T.Known m) (hr : (s.module m).isReady = false) :
    T.own m := by
  obtain hown | hready := hk
  · exact hown
  · rw [h.ready hready] at hr
    cases hr

/-- A cell that does not exist yet is not hidden. -/
theorem not_hidden (h : T.Holds s) {c : Nat} (hc : s.cells.size ≤ c) : ¬ T.hidden c := fun hh =>
  Nat.lt_irrefl _ (Nat.lt_of_lt_of_le (T.existing hh) (Nat.le_trans h.cells hc))

theorem updateModule (h : T.Holds s) (hm : T.own m) {f : Module → Module}
    (hf : ∀ x, T.Grows s x (f x)) : T.Holds (s.updateModule m f) := by
  have hsize : (s.updateModule m f).modules.size = s.modules.size := Array.size_modify ..
  -- each module is an old one, or the one that has grown
  have hgrows : ∀ k, (s.updateModule m f).module k = s.module k ∨
      k = m ∧ (s.updateModule m f).module k = f (s.module k) := fun k => by
    rw [Store.module_updateModule]
    split
    · rename_i he
      exact .inr ⟨he.1, he.1 ▸ rfl⟩
    · exact .inl rfl
  have hcells : ∀ k, ((s.updateModule m f).module k).cells = (s.module k).cells := fun k => by
    obtain e | ⟨-, e⟩ := hgrows k
    · rw [e]
    · rw [e, (hf _).cells]
  refine ⟨hsize ▸ h.size, h.cells, h.endpoints, fun {k} hk => ?_, fun {k} hk => ?_,
    fun {k} hk c hc => ?_, h.fetch, ⟨fun k w hw => ?_, fun {k} hk => ?_, h.avoids.cells,
      h.avoids.memos⟩, fun hbase => ?_, fun {k} hk => ?_⟩
  · obtain e | ⟨rfl, -⟩ := hgrows k
    · exact e.trans (h.kept hk)
    · exact absurd hm hk
  · obtain e | ⟨-, e⟩ := hgrows k
    · exact e ▸ h.ready hk
    · exact e ▸ (hf _).ready (h.ready hk)
  · obtain e | ⟨-, e⟩ := hgrows k
    · exact h.children hk c (e ▸ hc)
    · obtain hc | hc := (hf _).children c (e ▸ hc)
      · exact h.children hk c hc
      · exact hc.1
  · obtain e | ⟨-, e⟩ := hgrows k
    · exact h.avoids.words k w (e ▸ hw)
    · obtain hw | hw := (hf _).words w (e ▸ hw)
      · exact h.avoids.words k w hw
      · exact hw
  · rw [hcells]
    exact h.avoids.vars hk
  · have hs := h.wellFormed hbase
    refine ⟨fun k c hc => ?_, fun k => hcells k ▸ hs.cells k,
      fun {k n} => hcells k ▸ hcells n ▸ hs.apart⟩
    rw [hsize]
    obtain e | ⟨-, e⟩ := hgrows k
    · exact hs.children k c (e ▸ hc)
    · obtain hc | hc := (hf _).children c (e ▸ hc)
      · exact hs.children k c hc
      · exact hc.2
  · obtain e | ⟨-, e⟩ := hgrows k
    · exact e ▸ h.fixed hk
    · exact e ▸ (hf _).fixed.trans (h.fixed hk)

/-- A new module is one of the territory, and may be a block. -/
theorem addModule (h : T.Holds s) {x : Module} (hr : x.isReady = true) (hx : x.children = [])
    (hc : x.cells = []) (hw : ∀ w ∈ x.words, w.Avoids T.hidden) :
    T.block (s.addModule x).1 ∧ T.Holds (s.addModule x).2 := by
  have hnew : T.block s.modules.size := T.new h.size
  have hsize : (s.addModule x).2.modules.size = s.modules.size + 1 := Array.size_push ..
  have hmodule := s.module_addModule x
  refine ⟨hnew, hsize ▸ Nat.le_succ_of_le h.size, h.cells, h.endpoints, fun {k} hk => ?_,
    fun {k} hk => ?_, fun {k} hk c hmem => ?_, h.fetch, ⟨fun k w hmem => ?_, fun {k} hk e he => ?_,
      h.avoids.cells, h.avoids.memos⟩, fun hbase => ?_, fun {k} hk => ?_⟩
  · have hne : k ≠ s.modules.size := fun he => hk (he ▸ T.own_of_block hnew)
    rw [hmodule, if_neg hne]
    exact h.kept hk
  · rw [hmodule]
    split
    · exact hr
    · exact h.ready hk
  · rw [hmodule] at hmem
    split at hmem
    · simp [hx] at hmem
    · exact h.children hk c hmem
  · rw [hmodule] at hmem
    split at hmem
    · exact hw w hmem
    · exact h.avoids.words k w hmem
  · rw [hmodule] at he
    split at he
    · simp [hc] at he
    · exact h.avoids.vars hk e he
  · have hs := h.wellFormed hbase
    refine ⟨fun k c hmem => ?_, fun k e he => ?_, fun {k n} e he e' he' => ?_⟩
    · rw [hmodule] at hmem
      split at hmem
      · simp [hx] at hmem
      · exact hsize ▸ Nat.lt_succ_of_lt (hs.children k c hmem)
    · rw [hmodule] at he
      split at he
      · simp [hc] at he
      · exact hs.cells k e he
    · rw [hmodule] at he he'
      split at he
      · simp [hc] at he
      split at he'
      · simp [hc] at he'
      · exact hs.apart e he e' he'
  · have hne : k ≠ s.modules.size := Nat.ne_of_lt (Nat.lt_of_lt_of_le hk h.size)
    rw [hmodule, if_neg hne]
    exact h.fixed hk

theorem addWord (h : T.Holds s) (hm : T.own m) {w : Word} (hw : w.Avoids T.hidden) :
    T.Holds (s.addWord m w) := by
  refine updateModule (s := { s with nextId := s.nextId + 1 }) h.same hm fun x =>
    ⟨rfl, id, rfl, fun v hv => ?_, fun _ => .inl⟩
  obtain hv | hv := List.mem_append.mp hv
  · exact .inl hv
  · exact .inr (List.mem_singleton.mp hv ▸ (Word.avoids_relabel _).mpr hw)

/-- A new memo remembers nothing. -/
theorem pushMemo (h : T.Holds s) : T.Holds { s with memos := s.memos.push {} } := by
  refine ⟨h.size, h.cells, h.endpoints, h.kept, h.ready, h.children, h.fetch,
    ⟨h.avoids.words, h.avoids.vars, h.avoids.cells, fun k => ?_⟩, fun hbase =>
      ⟨(h.wellFormed hbase).children, (h.wellFormed hbase).cells, (h.wellFormed hbase).apart⟩,
    h.fixed⟩
  have hk := h.avoids.memos k
  unfold Store.memo at hk ⊢
  rw [Array.getElem?_push]
  split
  · exact .empty
  · exact hk

theorem setMemo (h : T.Holds s) {cell : Nat} {x : Memo} (hx : x.Avoids T.hidden) :
    T.Holds (s.setMemo cell x) := by
  refine ⟨h.size, h.cells, h.endpoints, h.kept, h.ready, h.children, h.fetch,
    ⟨h.avoids.words, h.avoids.vars, h.avoids.cells, fun k => ?_⟩, fun hbase =>
      ⟨(h.wellFormed hbase).children, (h.wellFormed hbase).cells, (h.wellFormed hbase).apart⟩,
    h.fixed⟩
  rw [Store.memo_setMemo]
  split
  · exact hx
  · exact h.avoids.memos k

theorem addMemoWords (h : T.Holds s) (hm : T.own m) {w : Word} (hw : w.Avoids T.hidden) :
    T.Holds (s.addMemoWords m w) := by
  unfold Store.addMemoWords
  exact ((h.pushMemo.addWord hm (w := .memo _ _ w) hw).addWord hm (w := .memoRefresh _ _ w)
    hw).addWord hm (w := .memoReload _ _ w) hw

/-- A value goes into a cell that is not hidden. -/
theorem put (h : T.Holds s) {cell : Nat} {v : Val} (hcell : ¬ T.hidden cell)
    (hv : v.Avoids T.hidden) : T.Holds (s.put cell v) := by
  have hsize : (s.put cell v).cells.size = s.cells.size := Array.size_setIfInBounds ..
  refine ⟨h.size, hsize ▸ h.cells, h.endpoints, h.kept, h.ready, h.children, fun {c} hc => ?_,
    ⟨h.avoids.words, h.avoids.vars, fun c => ?_, h.avoids.memos⟩, fun hbase =>
      ⟨(h.wellFormed hbase).children, hsize ▸ (h.wellFormed hbase).cells,
        (h.wellFormed hbase).apart⟩, h.fixed⟩
  · have hne : ¬ (c = cell ∧ c < s.cells.size) := fun e => hcell (e.1 ▸ hc)
    rw [Store.fetch_put, if_neg hne]
    exact h.fetch hc
  · rw [Store.fetch_put]
    split
    · exact hv
    · exact h.avoids.cells c

/-- A new variable of a module has a cell of its own. -/
theorem addVariable (h : T.Holds s) (hm : T.own m) (name : String) {v : Val}
    (hv : v.Avoids T.hidden) :
    T.Holds ((s.addCell v).2.updateModule m fun x => x.addVariable name s.cells.size) := by
  let t := (s.addCell v).2.updateModule m fun x => x.addVariable name s.cells.size
  have hsize : t.modules.size = s.modules.size := Array.size_modify ..
  have hcells : t.cells.size = s.cells.size + 1 := Array.size_push ..
  have hmodule : ∀ k, t.module k = s.module k ∨
      k = m ∧ t.module k = (s.module k).addVariable name s.cells.size := fun k => by
    show ((s.addCell v).2.updateModule m _).module k = _ ∨ _
    rw [Store.module_updateModule]
    split
    · rename_i he
      exact .inr ⟨he.1, he.1 ▸ rfl⟩
    · exact .inl rfl
  have hvariable : ∀ {k}, ∀ e ∈ (t.module k).cells,
      e ∈ (s.module k).cells ∨ k = m ∧ e.2 = s.cells.size := fun {k} e he => by
    obtain heq | ⟨hk, heq⟩ := hmodule k
    · exact .inl (heq ▸ he)
    · obtain he | he := List.mem_append.mp (heq ▸ he)
      · exact .inl he
      · exact .inr ⟨hk, List.mem_singleton.mp he ▸ rfl⟩
  refine ⟨hsize ▸ h.size, hcells ▸ Nat.le_succ_of_le h.cells, h.endpoints, fun {k} hk => ?_,
    fun {k} hk => ?_, fun {k} hk => ?_, fun {c} hc => ?_,
    ⟨fun k => ?_, fun {k} hk e he => ?_, fun c => ?_, h.avoids.memos⟩, fun hbase => ?_,
    fun {k} hk => ?_⟩
  · obtain e | ⟨rfl, -⟩ := hmodule k
    · exact e.trans (h.kept hk)
    · exact absurd hm hk
  · obtain e | ⟨-, e⟩ := hmodule k
    · exact e ▸ h.ready hk
    · exact e ▸ h.ready hk
  · obtain e | ⟨-, e⟩ := hmodule k
    · exact e ▸ h.children hk
    · exact e ▸ h.children hk
  · rw [show t.fetch c = (s.addCell v).2.fetch c from rfl, Store.fetch_addCell,
      if_neg fun e => h.not_hidden (Nat.le_of_eq e.symm) hc]
    exact h.fetch hc
  · obtain e | ⟨-, e⟩ := hmodule k
    · exact e ▸ h.avoids.words k
    · exact e ▸ h.avoids.words k
  · obtain he | ⟨-, he⟩ := hvariable e he
    · exact h.avoids.vars hk e he
    · exact he ▸ h.not_hidden (Nat.le_refl _)
  · rw [show t.fetch c = (s.addCell v).2.fetch c from rfl, Store.fetch_addCell]
    split
    · exact hv
    · exact h.avoids.cells c
  · have hs := h.wellFormed hbase
    refine ⟨fun k => ?_, fun k e he => ?_, fun {k n} e he e' he' heq => ?_⟩
    · obtain e | ⟨-, e⟩ := hmodule k
      · exact e ▸ hsize ▸ hs.children k
      · exact e ▸ hsize ▸ hs.children k
    · obtain he | ⟨-, he⟩ := hvariable e he
      · exact hcells ▸ Nat.lt_succ_of_lt (hs.cells k e he)
      · exact hcells ▸ he ▸ Nat.lt_succ_self _
    · obtain hold | ⟨hk, hnew⟩ := hvariable e he
      · obtain hold' | ⟨-, hnew'⟩ := hvariable e' he'
        · exact hs.apart e hold e' hold' heq
        · exact absurd (heq.trans hnew') (Nat.ne_of_lt (hs.cells k e hold))
      · obtain hold' | ⟨hn, -⟩ := hvariable e' he'
        · exact absurd (heq.symm.trans hnew) (Nat.ne_of_lt (hs.cells n e' hold'))
        · exact hk.trans hn.symm
  · obtain e | ⟨-, e⟩ := hmodule k
    · exact e ▸ h.fixed hk
    · exact e ▸ h.fixed hk

/-- The variable of a name is not hidden, whether it is an old one or a new one. -/
theorem variableCell (h : T.Holds s) (hm : T.own m) (name : String) {v : Val}
    (hv : v.Avoids T.hidden) :
    ¬ T.hidden (s.variableCell m name v).1 ∧ T.Holds (s.variableCell m name v).2 := by
  unfold Store.variableCell
  split
  · rename_i cell hcell
    exact ⟨h.avoids.vars hm _ (mem_of_lookup hcell), h⟩
  · exact ⟨h.not_hidden (Nat.le_refl _), h.addVariable hm name hv⟩

theorem connect (h : T.Holds s) (pool : Nat) (name address : String) (timeout : Binary64) :
    T.Holds (s.connect pool name address timeout) := by
  unfold Store.connect
  split
  · exact h
  · exact h.same

theorem disconnect (h : T.Holds s) (pool : Nat) (name : String) :
    T.Holds (s.disconnect pool name) := by
  unfold Store.disconnect
  split
  · exact h.same
  · exact h

theorem log (h : T.Holds s) (level : LogLevel) (scope message : String) :
    T.Holds (s.log level scope message) := by
  unfold Store.log
  split
  · exact h.same
  · exact h

theorem addRemoteWords (h : T.Holds s) (hm : T.own m) (client : Nat) (runtime : String)
    (doc : ModuleDoc) : T.Holds (s.addRemoteWords m client runtime doc) := by
  unfold Store.addRemoteWords
  refine updateModule ?_ hm fun _ => .same
  generalize (s.module m).name = name
  generalize doc.words = ws
  induction ws generalizing s with
  | nil => exact h
  | cons w ws ih =>
    have hw : (remoteWord client runtime name w).Avoids T.hidden := by
      rw [remoteWord, Word.Avoids]
      trivial
    exact ih ((h.addWord hm hw).updateModule hm fun _ => .same)

/-- A module that is declared without a source is one of the territory. -/
theorem define (h : T.Holds s) {spec : ModuleSpec} (hsource : spec.source.isEmpty = true)
    (hspec : spec.Avoids T.hidden) (hd : s.define spec = .ok (m, t)) : T.own m ∧ T.Holds t := by
  obtain ⟨x, hb, rfl, rfl⟩ := Store.of_define hd
  obtain ⟨hr, hc, hv⟩ := ModuleSpec.build_new hb
  obtain ⟨hblock, ht⟩ := addModule (s := { s with nextId := s.nextId + x.words.length }) h.same
    (hr.trans hsource) hc hv (ModuleSpec.avoids_build hspec hb)
  exact ⟨T.own_of_block hblock, ht⟩

end Holds

/-! ## Everywhere -/

/-- A territory from which no variable is hidden. -/
def visible (base : Store) (own block : Nat → Prop) (own_of_block : ∀ {m}, block m → own m)
    (new : ∀ {m}, base.modules.size ≤ m → block m)
    (inner : ∀ {m}, own m → ∀ c ∈ (base.module m).children, block c.2)
    (served : ∀ p ∈ base.endpoints, ∀ e ∈ p.runtime.registry.entries,
      own e.2 ∨ (base.module e.2).isReady = true) : Territory where
  base := base
  own := own
  block := block
  hidden := fun _ => False
  own_of_block := own_of_block
  new := new
  inner := inner
  served := served
  existing := False.elim
  avoids := base.avoids_of_none fun _ => id

/-- The territory of code that may change every module, where only some may become blocks. -/
def unbarred (base : Store) (block : Nat → Prop) (new : ∀ {m}, base.modules.size ≤ m → block m)
    (inner : ∀ m, ∀ c ∈ (base.module m).children, block c.2) : Territory :=
  visible base (fun _ => True) block (fun _ => ⟨⟩) new (fun _ => inner _) fun _ _ _ _ => .inl ⟨⟩

/-- The territory of code that may change everything: ready modules stay ready even so. -/
def everywhere (s : Store) : Territory := unbarred s (fun _ => True) (fun _ => ⟨⟩) fun _ _ _ => ⟨⟩

theorem holds_everywhere (s : Store) : (everywhere s).Holds s := holds_base _

theorem Holds.trans {u : Store} (h : (everywhere s).Holds t) (h' : (everywhere t).Holds u) :
    (everywhere s).Holds u where
  size := Nat.le_trans h.size h'.size
  cells := Nat.le_trans h.cells h'.cells
  endpoints := h'.endpoints.trans h.endpoints
  kept hn := absurd ⟨⟩ hn
  ready hr := h'.ready (h.ready hr)
  children _ _ _ := ⟨⟩
  fetch := False.elim
  avoids := u.avoids_of_none fun _ => id
  wellFormed hs := h'.wellFormed (h.wellFormed hs)
  fixed hm := (h'.fixed (Nat.lt_of_lt_of_le hm h.size)).trans (h.fixed hm)

theorem within_everywhere (s : Store) (h : i.initializing = []) :
    (everywhere s).Within i.app [] i :=
  ⟨rfl, ⟨⟩, fun _ _ => ⟨⟩, fun _ _ => .inl ⟨⟩, fun _ _ => .inl ⟨⟩, fun _ _ => .inl ⟨⟩, h,
    .of_none (fun _ => id) i⟩

end Territory

end Wordstack
