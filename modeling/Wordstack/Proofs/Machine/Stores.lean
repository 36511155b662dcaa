import Wordstack.Machine.Execute
import Wordstack.Proofs.Machine.Likeness

/-!
# Operations on stores that are alike

- **Modules** (`Store.module_updateModule`, `Store.module_addModule`).
- **Looking words up** (`of_findIn?`, `Interp.of_resolve`): what holds of all words holds of those
  that are found.
- **Blind stores**: operations that add blind words at most leave a store blind.
- **Likeness** (`Likeness.Stores`): the same operation on both stores leaves them alike. One that
  does not look at modules and memos is given by how it goes on with others (`Stores.update`).
-/

namespace Wordstack

namespace Store

variable {s : Store}

theorem module_updateModule (m : Nat) (f : Module → Module) (k : Nat) :
    (s.updateModule m f).module k =
      if k = m ∧ m < s.modules.size then f (s.module m) else s.module k := by
  unfold Store.module Store.updateModule
  rw [Array.getElem?_modify]
  by_cases hk : m = k
  · subst hk
    by_cases hm : m < s.modules.size
    · simp [hm]
    · simp [hm]
  · simp [hk, Ne.symm hk]

theorem module_addModule (x : Module) (k : Nat) :
    (s.addModule x).2.module k = if k = s.modules.size then x else s.module k := by
  unfold Store.module Store.addModule
  rw [Array.getElem?_push]
  split
  · simp
  · rfl

theorem module_of_size_le {k : Nat} (h : s.modules.size ≤ k) : s.module k = default := by
  unfold Store.module
  rw [Array.getElem?_eq_none h]
  rfl

/-- Changes of modules that do not get in each other's way. -/
theorem updateModule_comm (s : Store) (m k : Nat) {f g : Module → Module}
    (h : ∀ x, f (g x) = g (f x)) :
    (s.updateModule m g).updateModule k f = (s.updateModule k f).updateModule m g := by
  unfold updateModule
  congr 1
  refine Array.ext (by simp) fun n _ _ => ?_
  simp only [Array.getElem_modify]
  split
  · split
    · exact h _
    · rfl
  · rfl

theorem Blind.updateModule (hs : s.Blind) (i : Nat) {f : Module → Module}
    (hf : ∀ m, m.Blind → (f m).Blind) : (s.updateModule i f).Blind := by
  intro m hm
  obtain ⟨k, hk, rfl⟩ := Array.mem_iff_getElem.mp hm
  simp only [Store.updateModule, Array.size_modify] at hk
  simp only [Store.updateModule, Array.getElem_modify]
  split
  · exact hf _ (hs _ (Array.getElem_mem hk))
  · exact hs _ (Array.getElem_mem hk)

theorem Blind.addModule (hs : s.Blind) {m : Module} (hm : m.Blind) : (s.addModule m).2.Blind := by
  intro m' hm'
  rcases Array.mem_push.mp hm' with h | rfl
  · exact hs m' h
  · exact hm

end Store

/-! ## Looking words up -/

section Lookup

/-- What holds of all words of all modules holds of those that are found. -/
theorem of_exportedWord? {P : Word → Prop} {modules : Array Module}
    (hs : ∀ m ∈ modules, ∀ w ∈ m.words, P w) (path : List Nat) (i : Nat) (name : String) {w : Word}
    (h : exportedWord? modules path i name = some w) : P w := by
  fun_induction exportedWord? modules path i name generalizing w with
  | case1 path i name hi hp m he =>
    rename_i ih
    rcases Option.or_eq_some_iff.mp h with h | ⟨-, h⟩
    · exact hs m (Array.getElem_mem hi) w (List.mem_reverse.mp (List.mem_of_find?_eq_some h))
    · obtain ⟨imp, -, himp⟩ := List.exists_of_findSome?_eq_some h
      cases ht : imp.target? name with
      | none => simp [ht] at himp
      | some target => exact ih imp target (by simpa [ht] using himp)
  | _ => simp at h

theorem mem_of_lookup {α : Type} {entries : List (String × α)} {key : String} {value : α}
    (h : entries.lookup key = some value) : (key, value) ∈ entries := by
  obtain ⟨before, after, rfl, -⟩ := List.lookup_eq_some_iff.mp h
  simp

/-- What holds of all words, and of the constants that stand for the variables of a module, holds
of all that is found in the module. -/
theorem of_findIn? {P : Word → Prop} {modules : Array Module}
    (hs : ∀ m ∈ modules, ∀ w ∈ m.words, P w) {i : Nat}
    (hv : ∀ m, modules[i]? = some m → ∀ e ∈ m.cells,
      P (.constant { name := e.1 } (.variableRef ⟨e.2, e.1⟩)))
    {name : String} {w : Word} (h : findIn? modules i name = some w) : P w := by
  unfold findIn? at h
  split at h
  · simp at h
  · rename_i m hm
    split at h
    · rename_i w' hw
      obtain rfl := Option.some.inj h
      exact hs m (Array.mem_of_getElem? hm) _ (List.mem_reverse.mp (List.mem_of_find?_eq_some hw))
    · split at h
      · rename_i cell hcell
        obtain rfl := Option.some.inj h
        exact hv m hm _ (mem_of_lookup hcell)
      · obtain ⟨imp, -, himp⟩ := List.exists_of_findSome?_eq_some h
        cases ht : imp.target? name with
        | none => simp [ht] at himp
        | some target =>
          exact of_exportedWord? hs _ _ _ (by simpa [ht] using himp)

/-- What holds of all words and of constants holds of what a text stands for. -/
theorem Interp.of_resolve {P : Word → Prop} {i : Interp} {s : Store}
    (hs : ∀ m ∈ s.modules, ∀ w ∈ m.words, P w) (hc : ∀ label v, P (.constant label v))
    {text : String} {l : Option Location} {w : Word} (h : i.resolve s text l = .ok w) : P w := by
  unfold Interp.resolve Interp.findWord at h
  split at h
  · cases h
    exact hc ..
  · split at h
    · rename_i w' hfound
      cases h
      obtain ⟨m, -, hm⟩ := List.exists_of_findSome?_eq_some hfound
      exact of_findIn? hs (fun _ _ _ _ => hc _ _) hm
    · cases h

end Lookup

/-! ## Likeness -/

theorem Store.memo_setMemo (s : Store) (cell c : Nat) (m : Memo) :
    (s.setMemo cell m).memo c = if c = cell ∧ cell < s.memos.size then m else s.memo c := by
  unfold Store.setMemo Store.memo
  by_cases hc : c = cell
  · subst hc
    by_cases hs : c < s.memos.size
    · simp [hs]
    · simp [hs]
  · simp [hc, Ne.symm hc]

/-- An operation that does not look at memos. -/
theorem Store.Alike.update {s t : Store} (h : s.Alike t) (f : Store → Store)
    (hf : ∀ s memos, f (s.remembering memos) = (f s).remembering memos) : (f s).Alike (f t) := by
  have hm : ∀ s, (f s).memos = s.memos := fun s => by
    rw [show f s = (f s).remembering s.memos from hf s s.memos]
    rfl
  refine ⟨?_, ?_, fun cell => ?_⟩
  · rw [hm, ← hf, ← h.rest]
  · rw [hm, hm]
    exact h.size
  · have he := h.memo cell
    unfold Store.memo at he ⊢
    rw [hm, hm]
    exact he

namespace Likeness

variable {L : Likeness} {s t : Store}

namespace Stores

theorem view {α : Type} (hs : L.Stores s t) (f : Store → α)
    (hf : ∀ s c, f (s.containing c) = f s) : f t = f s := by
  rw [hs.rest]
  exact hf s _

/-- An operation that does not look at modules and memos. -/
theorem update (hs : L.Stores s t) (f : Store → Store)
    (hf : ∀ s c, f (s.containing c) = (f s).containing c) : L.Stores (f s) (f t) := by
  have hc : ∀ s, (f s).contents = s.contents := fun s => by
    rw [show f s = (f s).containing s.contents from hf s s.contents]
    rfl
  have hmodules : ∀ s, (f s).modules = s.modules := fun s => congrArg Store.Contents.modules (hc s)
  have hmemos : ∀ s, (f s).memos = s.memos := fun s => congrArg Store.Contents.memos (hc s)
  have hends : ∀ s, (f s).endpoints = s.endpoints := fun s =>
    congrArg Store.Contents.endpoints (hc s)
  have hmemo : ∀ s, (f s).memo = s.memo := fun s => by
    unfold Store.memo
    rw [hmemos]
  refine ⟨?_, ?_, fun cell => ?_, ?_, ?_, fun hl => ?_, fun hl => ?_⟩
  · rw [hc, ← hf, ← hs.rest]
  · rw [hmemos, hmemos]
    exact hs.size
  · rw [hmemo, hmemo]
    exact hs.memo cell
  · rw [hmodules, hmodules]
    exact hs.modules
  · rw [hends, hends]
    exact hs.endpoints
  · unfold Store.Blind
    rw [hmodules]
    exact hs.blind hl
  · rw [hends]
    exact hs.alone hl

/-- An operation with a result that does not look at modules and memos. -/
theorem operate {α : Type} (hs : L.Stores s t) (f : Store → α × Store)
    (hf : ∀ s c, f (s.containing c) = ((f s).1, (f s).2.containing c)) :
    (f t).1 = (f s).1 ∧ L.Stores (f s).2 (f t).2 := by
  refine ⟨?_, hs.update (fun s => (f s).2) fun s c => by rw [hf]⟩
  exact hs.view (fun s => (f s).1) fun s c => by rw [hf]

/-- An operation that may fail and does not look at memos, where words do not differ. -/
theorem operate? {α : Type} (hs : L.Stores s t) (hr : L.relocates = false)
    {f : Store → Except Fault (α × Store)}
    (hf : ∀ s memos, f (s.remembering memos) = (f s).map fun p => (p.1, p.2.remembering memos))
    {p : α × Store} (h : f s = .ok p) (hb : L.blind = true → s.Blind → p.2.Blind) :
    f t = .ok (p.1, p.2.remembering t.memos) ∧ L.Stores p.2 (p.2.remembering t.memos) := by
  have ha := hs.alike hr
  have ht : f t = .ok (p.1, p.2.remembering t.memos) := by
    rw [ha.rest, hf, h]
    rfl
  have hself : f s = .ok (p.1, p.2.remembering s.memos) := by
    rw [show f s = f (s.remembering s.memos) from rfl, hf, h]
    rfl
  have hm : p.2.memos = s.memos := by
    rw [h] at hself
    rw [show p.2 = p.2.remembering s.memos from congrArg Prod.snd (Except.ok.inj hself)]
    rfl
  refine ⟨ht, .of_alike ⟨rfl, by rw [hm]; exact hs.size, fun cell => ?_⟩ hr fun hl =>
    hb hl (hs.blind hl)⟩
  have he := hs.memo cell
  unfold Store.memo at he ⊢
  rw [hm]
  exact he

/-! ### Modules -/

theorem size_modules (hs : L.Stores s t) : t.modules.size = s.modules.size := by
  have h := congrArg Array.size hs.modules
  rw [Array.size_map, Array.size_map] at h
  exact h.symm

/-- The modules at an index are the same, but for the places of their words. -/
theorem module (hs : L.Stores s t) (m : Nat) :
    (s.module m).blur L.relocates = (t.module m).blur L.relocates := by
  have h : ∀ s : Store, (s.module m).blur L.relocates =
      (s.modules.map (Module.blur L.relocates))[m]?.getD default := fun s => by
    unfold Store.module
    rw [Array.getElem?_map]
    cases s.modules[m]? with
    | none => rfl
    | some x => rfl
  rw [h, h, hs.modules]

/-- What does not depend on the places of words is the same of both modules at an index. -/
theorem viewModule {α : Type} (hs : L.Stores s t) (m : Nat) (f : Module → α)
    (hf : ∀ x, f (x.blur L.relocates) = f x) : f (t.module m) = f (s.module m) := by
  rw [← hf, ← hs.module, hf]

/-- Changes of modules that are the same but for the places of words. -/
theorem modify (hs : L.Stores s t) (i : Nat) {f g : Module → Module}
    (hfg : ∀ x y, x.blur L.relocates = y.blur L.relocates →
      (f x).blur L.relocates = (g y).blur L.relocates)
    (hb : L.blind = true → ∀ m, m.Blind → (f m).Blind) :
    L.Stores (s.updateModule i f) (t.updateModule i g) := by
  refine ⟨?_, hs.size, hs.memo, Array.ext ?_ fun k hk hk' => ?_, hs.endpoints,
    fun hl => (hs.blind hl).updateModule i (hb hl), hs.alone⟩
  · rw [hs.rest]
    rfl
  · simpa [Store.updateModule] using hs.size_modules.symm
  · simp only [Store.updateModule, Array.size_map, Array.size_modify] at hk hk'
    have hmodule : s.modules[k].blur L.relocates = t.modules[k].blur L.relocates := by
      simpa [Store.module, hk, hk'] using hs.module k
    simp only [Store.updateModule, Array.getElem_map, Array.getElem_modify]
    split
    · exact hfg _ _ hmodule
    · exact hmodule

/-- A change of a module that has nothing to do with places and adds blind words at most. -/
theorem updateModule (hs : L.Stores s t) (i : Nat) {f : Module → Module}
    (hf : ∀ x, (f x).blur L.relocates = f (x.blur L.relocates))
    (hb : L.blind = true → ∀ m, m.Blind → (f m).Blind) :
    L.Stores (s.updateModule i f) (t.updateModule i f) :=
  hs.modify i (fun x y h => by rw [hf, h, hf]) hb

/-- A new module without words. -/
theorem addModule (hs : L.Stores s t) {x : Module} (hx : x.words = []) :
    (t.addModule x).1 = (s.addModule x).1 ∧ L.Stores (s.addModule x).2 (t.addModule x).2 := by
  refine ⟨hs.size_modules, ?_, hs.size, hs.memo, ?_, hs.endpoints,
    fun hl => (hs.blind hl).addModule fun w hw => ?_, hs.alone⟩
  · rw [hs.rest]
    rfl
  · simp [Store.addModule, hs.modules]
  · rw [hx] at hw
    cases hw

theorem addWord (hs : L.Stores s t) (i : Nat) {v w : Word}
    (h : v.blur L.relocates = w.blur L.relocates) (hv : L.blind = true → v.Blind) :
    L.Stores (s.addWord i v) (t.addWord i w) := by
  have hid : t.nextId = s.nextId := hs.view Store.nextId fun _ _ => rfl
  refine (hs.update (fun s => { s with nextId := s.nextId + 1 }) fun _ _ => rfl).modify i
    (f := fun m => m.addWord s.nextId v) (g := fun m => m.addWord t.nextId w)
    (fun x y hxy => ?_) fun hl m hm => Module.blind_addWord _ hm (hv hl)
  rw [Module.blur_addWord, Module.blur_addWord, hid, hxy, h]

theorem variableCell (hs : L.Stores s t) (i : Nat) (name : String) (v : Val) :
    (t.variableCell i name v).1 = (s.variableCell i name v).1 ∧
      L.Stores (s.variableCell i name v).2 (t.variableCell i name v).2 := by
  have hcell : (t.module i).cell? name = (s.module i).cell? name :=
    hs.viewModule i (·.cell? name) fun _ => rfl
  unfold Store.variableCell
  rw [hcell]
  cases (s.module i).cell? name with
  | some cell => exact ⟨rfl, hs⟩
  | none =>
    have hadd : (t.addCell v).1 = (s.addCell v).1 ∧ L.Stores (s.addCell v).2 (t.addCell v).2 :=
      hs.operate (·.addCell v) fun _ _ => rfl
    refine ⟨hadd.1, ?_⟩
    simp only [hadd.1]
    exact hadd.2.updateModule i (fun _ => rfl) fun _ _ hm => hm

theorem addRemoteWords (hs : L.Stores s t) (m client : Nat) (runtime : String)
    (doc : ModuleDoc) :
    L.Stores (s.addRemoteWords m client runtime doc) (t.addRemoteWords m client runtime doc) := by
  have hn : (t.module m).name = (s.module m).name := hs.viewModule m Module.name fun _ => rfl
  unfold Store.addRemoteWords
  rw [hn]
  clear hn
  refine updateModule ?_ m (fun _ => rfl) fun _ _ hm => hm
  generalize (s.module m).name = name
  generalize doc.words = ws
  induction ws generalizing s t with
  | nil => exact hs
  | cons w ws ih =>
    have hw := hs.addWord m (v := remoteWord client runtime name w) rfl fun _ => by
      simp [remoteWord, Word.Blind]
    exact ih (hw.updateModule m (fun _ => rfl) fun _ _ hm => hm)

/-! ### Memos -/

/-- New contents of a memo that callers cannot tell apart. -/
theorem setMemo (hs : L.Stores s t) (cell : Nat) {m n : Memo} (h : m.Alike n) :
    L.Stores (s.setMemo cell m) (t.setMemo cell n) := by
  refine ⟨?_, by simp [Store.setMemo, hs.size], fun c => ?_, hs.modules, hs.endpoints, hs.blind,
    hs.alone⟩
  · rw [hs.rest]
    rfl
  · rw [Store.memo_setMemo, Store.memo_setMemo, hs.size]
    split
    · exact h
    · exact hs.memo c

/-- A new memo with nothing in it. -/
theorem pushMemo (hs : L.Stores s t) :
    L.Stores { s with memos := s.memos.push {} } { t with memos := t.memos.push {} } := by
  refine ⟨?_, by simp [hs.size], fun c => ?_, hs.modules, hs.endpoints, hs.blind, hs.alone⟩
  · rw [hs.rest]
    rfl
  · have h := hs.memo c
    unfold Store.memo at h ⊢
    rw [Array.getElem?_push, Array.getElem?_push, hs.size]
    split
    · exact .refl _
    · exact h

theorem addMemoWords (hs : L.Stores s t) (i : Nat) {v w : Word}
    (h : v.blur L.relocates = w.blur L.relocates) (hv : L.blind = true → v.Blind) :
    L.Stores (s.addMemoWords i v) (t.addMemoWords i w) := by
  have hname : w.name = v.name := by rw [← w.name_blur, ← h, v.name_blur]
  have hlocation : v.label.location.map (Location.blur L.relocates) =
      w.label.location.map (Location.blur L.relocates) := by
    have hlabel := congrArg (fun w : Word => w.label.location) h
    rwa [Word.label_blur, Word.label_blur] at hlabel
  unfold Store.addMemoWords
  rw [← hs.size, hname]
  refine ((hs.pushMemo.addWord i (v := .memo _ _ v) (w := .memo _ _ w) ?_ hv).addWord i
    (v := .memoRefresh _ _ v) (w := .memoRefresh _ _ w) ?_ hv).addWord i
    (v := .memoReload _ _ v) (w := .memoReload _ _ w) ?_ hv
  · simp only [Word.blur, WordLabel.blur, h, hlocation]
  · simp only [Word.blur, h]
  · simp only [Word.blur, h]

/-! ### Connections and logs -/

theorem connect (hs : L.Stores s t) (pool : Nat) (name address : String) (timeout : Binary64) :
    L.Stores (s.connect pool name address timeout) (t.connect pool name address timeout) := by
  refine hs.update (fun s => s.connect pool name address timeout) fun s c => ?_
  unfold Store.connect
  cases h : (s.pool pool).lookup name with
  | none => simp only [show (s.containing c).pool pool = s.pool pool from rfl, h]; rfl
  | some client => simp only [show (s.containing c).pool pool = s.pool pool from rfl, h]

theorem disconnect (hs : L.Stores s t) (pool : Nat) (name : String) :
    L.Stores (s.disconnect pool name) (t.disconnect pool name) := by
  refine hs.update (fun s => s.disconnect pool name) fun s c => ?_
  unfold Store.disconnect
  cases h : (s.pool pool).lookup name with
  | none => simp only [show (s.containing c).pool pool = s.pool pool from rfl, h]
  | some client => simp only [show (s.containing c).pool pool = s.pool pool from rfl, h]; rfl

theorem log (hs : L.Stores s t) (level : LogLevel) (scope message : String) :
    L.Stores (s.log level scope message) (t.log level scope message) := by
  refine hs.update (fun s => s.log level scope message) fun s c => ?_
  unfold Store.log
  cases h : logLine? s.level level scope message with
  | none => simp only [show (s.containing c).level = s.level from rfl, h]
  | some line => simp only [show (s.containing c).level = s.level from rfl, h]; rfl

end Stores

end Likeness

end Wordstack
