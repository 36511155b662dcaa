import Wordstack.Proofs.Machine.Hiding
import Wordstack.Proofs.Machine.Making
import Wordstack.Proofs.Machine.Redefinition
import Wordstack.Proofs.Modules.Routes
import Wordstack.Proofs.Runs.Cells
import Wordstack.Proofs.Runs.Duplicate

/-!
# States of programs on cells

When an interpreter and its store are in the state of a program on cells.

- **Words** (`CellWord.Describes`): what a program knows of the words that are found under names.
- **States** (`Cells.Stands`): the interpreter has the stack, the blocks and the brackets of the
  program (`Cells.OfInterp`), and the store its names, cells and values (`Cells.OfStore`).
- **The cells of a state** (`Cells.of`): every interpreter that nothing is in progress on is in the
  state of a program (`Cells.stands_of`), also a standard one (`Cells.stands_of_standard`).
- **Changes** (`Cells.OfStore.addCell`, `Cells.OfStore.addChild`, `Cells.Stands.put`): what the
  machine does to a state is what the program does to its own, and words that are found stay
  (`Store.SameWords`).
-/

namespace Wordstack

/-! ## What stands for what -/

namespace CellWord

/-- The name of the word in the core vocabulary. -/
def name? : CellWord → Option String
  | create => some "VARIABLES"
  | store => some "!"
  | storeBack => some "!@"
  | fetch => some "@"
  | other => none

/-- Its declaration. -/
def spec? (u : CellWord) : Option NativeSpec :=
  u.name?.bind fun name => Core.natives.find? fun spec => spec.name == name

/-- What is known of a word that may be there. -/
inductive Describes : Option CellWord → Option Word → Prop
  | missing : Describes none none
  | unknown (w : Word) : Describes (some other) (some w)
  | core {u : CellWord} {spec : NativeSpec} {w : Word} (label : WordLabel)
      (hs : u.spec? = some spec) (hw : spec.word = .ok w) :
      Describes (some u) (some (w.relabel fun _ => label))

/-- The number of its inputs. -/
def inputs : CellWord → Nat
  | create | fetch => 1
  | _ => 2

/-- Its code. -/
def code (u : CellWord) : List Val → Options → Native (Option Val) :=
  match u.spec? with
  | some spec => spec.code
  | none => fun _ _ => default

/-- A call of it. -/
def call (u : CellWord) (e : Nested) : Task Unit := callNative e u.inputs false false u.code

theorem Describes.eq_none {w : Option Word} (h : Describes none w) : w = none := by
  cases h
  rfl

theorem Describes.exists_some {u : CellWord} {w : Option Word} (h : Describes (some u) w) :
    ∃ x, w = some x := by
  cases h with
  | unknown w => exact ⟨w, rfl⟩
  | core => exact ⟨_, rfl⟩

theorem Describes.exists_word {u : CellWord} {w : Option Word} (h : Describes (some u) w)
    (hu : u ≠ other) : ∃ label, w = some (.native label u.inputs false false u.code []) := by
  cases h with
  | unknown => exact absurd rfl hu
  | core label hs hw =>
    refine ⟨label, congrArg some ?_⟩
    cases u with
    | other => exact absurd rfl hu
    | _ =>
      cases hs
      cases hw
      rfl

end CellWord

/-! ## States that a program on cells stands for -/

/-- The interpreter has the stack, the blocks and the brackets of the program. -/
structure Cells.OfInterp (W : CellWords) (c : Cells) (i : Interp) : Prop where
  literal : ∀ text, i.literal? text = W.literal text
  app : i.app = c.app
  scope : i.scope = c.scope
  stack : i.stack = c.stack
  marks : i.marks = c.marks
  compiling : i.compiling = false
  recovery : i.recovery = none
  pending : i.pending = []

/-- The modules of the store have the blocks, the words and the variables of the program, and its
cells hold their values. -/
structure Cells.OfStore (W : CellWords) (c : Cells) (s : Store) : Prop where
  modules : s.modules.size = c.modules
  child : ∀ m name, (s.module m).children.lookup name = c.child? m name
  cell : ∀ m name, (s.module m).cell? name = c.cell? m name
  own : ∀ m name, CellWord.Describes (W.own m name) ((s.module m).ownWord? name)
  imported : ∀ m name,
    CellWord.Describes (W.imported m name) (importedWord? s.modules m (s.module m).imports name)
  count : s.cells.size = c.count
  fetch : ∀ k, s.fetch k = c.value k

/-- An interpreter and a store that are in the state of a program on cells. -/
structure Cells.Stands (W : CellWords) (c : Cells) (i : Interp) (s : Store) : Prop where
  sound : c.Sound
  interp : c.OfInterp W i
  store : c.OfStore W s

/-- A task ends as the program does, with a fault where that fails, and in its state. -/
inductive Cells.EndsAs (W : CellWords) : Outcome Unit → Cells × Bool → Prop
  | ok {c : Cells} {i : Interp} {s : Store} (h : c.Stands W i s) :
      EndsAs W (.ended (.ok ()) i s) (c, true)
  | fault {c : Cells} {f : Fault} {i : Interp} {s : Store} (h : c.Stands W i s) :
      EndsAs W (.ended (.fault f) i s) (c, false)

/-! ## The cells of a state -/

theorem Core.nodup_natives : (Core.natives.map NativeSpec.name).Nodup := by decide +kernel

namespace CellWord

/-- What a word of a name does in the core vocabulary. -/
def ofName : String → CellWord
  | "VARIABLES" => create
  | "!" => store
  | "!@" => storeBack
  | "@" => fetch
  | _ => other

/-- What a word does, by its name and its module. -/
def of (w : Word) : CellWord := if w.label.home = some coreName then ofName w.name else other

theorem name?_ofName {name : String} (h : ofName name ≠ other) :
    (ofName name).name? = some name := by
  unfold ofName at h ⊢
  split at h
  · rfl
  · rfl
  · rfl
  · rfl
  · exact absurd rfl h

theorem spec?_of_mem {spec : NativeSpec} {u : CellWord} (hs : spec ∈ Core.natives)
    (hu : u.name? = some spec.name) : u.spec? = some spec := by
  rw [spec?, hu]
  show (Core.natives.find? fun t => t.name == spec.name) = some spec
  cases hfind : Core.natives.find? fun t => t.name == spec.name with
  | none => exact absurd (beq_self_eq_true _) (List.find?_eq_none.mp hfind spec hs)
  | some t =>
    have hname := List.find?_some hfind
    rw [List.inj_on_of_nodup_map Core.nodup_natives (List.mem_of_find?_eq_some hfind) hs
      (beq_iff_eq.mp hname)]

/-- Words that work on the stack itself do nothing with cells. -/
theorem ofName_of_direct {spec : DirectSpec} (hs : spec ∈ Core.directs) :
    ofName spec.name = other := by
  have hall : (Core.directs.all fun spec => ofName spec.name == other) = true := by decide +kernel
  exact beq_iff_eq.mp (List.all_eq_true.mp hall spec hs)

/-- Words of the core vocabulary do what their names say. -/
theorem describes_of_build {id : Nat} {x : Module} {w : Word} (h : coreModule.build id = .ok x)
    (hw : w ∈ x.words) : Describes (some (of w)) (some w) := by
  obtain ⟨ws, v, k, hws, hv, rfl⟩ := ModuleSpec.exists_declared_of_build h hw
  obtain ⟨spec, hs, he⟩ | ⟨spec, hs, he⟩ := ModuleSpec.of_mem_words hws hv
  · have hword := he
    obtain ⟨label, inputs, hasOptions, hname, rfl⟩ := spec.of_word he
    have hof : of ((Word.native label inputs hasOptions spec.waits spec.code spec.handlers).relabel
        fun l => { l with id := some k, home := some coreModule.name }) = ofName spec.name :=
      (if_pos rfl).trans (congrArg ofName hname)
    rw [hof]
    by_cases hother : ofName spec.name = other
    · rw [hother]
      exact .unknown _
    · exact .core { label with id := some k, home := some coreModule.name }
        (spec?_of_mem hs (name?_ofName hother)) hword
  · obtain ⟨label, hname, rfl⟩ := spec.of_word he
    have hof : of ((Word.direct label spec.waits spec.code spec.handlers).relabel
        fun l => { l with id := some k, home := some coreModule.name }) = other :=
      (if_pos rfl).trans ((congrArg ofName hname).trans (ofName_of_direct hs))
    rw [hof]
    exact .unknown _

end CellWord

theorem lookup_range_map {α : Type} (f : Nat → α) (n k : Nat) :
    ((List.range n).map fun j => (j, f j)).lookup k = if k < n then some (f k) else none := by
  induction n with
  | zero => rfl
  | succ n ih =>
    rw [List.range_succ, List.map_append, List.lookup_append, ih]
    by_cases hk : k = n
    · subst hk
      rw [if_neg (Nat.lt_irrefl k), if_pos (Nat.lt_succ_self k), Option.none_or]
      exact List.lookup_cons_self
    · have hlast : [(n, f n)].lookup k = none := by
        rw [List.lookup_cons, beq_eq_false_iff_ne.mpr hk, List.lookup_nil]
      rw [List.map_cons, List.map_nil, hlast, Option.or_none]
      exact if_congr (by omega) rfl rfl

section Of

variable {i : Interp} {s : Store}

/-- What names stand for with an interpreter and a store. -/
def CellWords.of (i : Interp) (s : Store) : CellWords where
  literal text := (i.literal? text).filter Val.isSerializable
  own m name := ((s.module m).ownWord? name).map CellWord.of
  imported m name := (importedWord? s.modules m (s.module m).imports name).map CellWord.of
  literal_isSerializable h := (Option.filter_eq_some_iff.mp h).2

/-- The state of a program on the variables of a store. -/
def Cells.of (i : Interp) (s : Store) : Cells where
  app := i.app
  scope := i.scope
  modules := s.modules.size
  child? m name := (s.module m).children.lookup name
  cell? m name := (s.module m).cell? name
  count := s.cells.size
  stores := (List.range s.cells.size).map fun k => (k, s.fetch k)
  stack := i.stack
  marks := i.marks

/-- An interpreter with nothing in progress is in the state of a program on its variables, if the
words that go by the names of the core vocabulary are those. -/
theorem Cells.stands_of (hsound : (Cells.of i s).Sound) (hcompiling : i.compiling = false)
    (hrecovery : i.recovery = none) (hpending : i.pending = [])
    (hliteral : ∀ {text v}, i.literal? text = some v → v.isSerializable = true)
    (hwords : ∀ m, ∀ w ∈ (s.module m).words,
      CellWord.Describes (some (CellWord.of w)) (some w)) :
    (Cells.of i s).Stands (CellWords.of i s) i s := by
  have hdescribes : ∀ {w : Option Word}, (∀ x, w = some x →
      CellWord.Describes (some (CellWord.of x)) (some x)) →
      CellWord.Describes (w.map CellWord.of) w := fun {w} hw => by
    cases w with
    | none => exact .missing
    | some x => exact hw x rfl
  have hmodules : ∀ x ∈ s.modules, ∀ w ∈ x.words,
      CellWord.Describes (some (CellWord.of w)) (some w) := fun x hx w hw => by
    obtain ⟨m, hm, rfl⟩ := Array.mem_iff_getElem.mp hx
    have hmodule : s.module m = s.modules[m] := by
      rw [Store.module, Array.getElem?_eq_getElem hm, Option.getD_some]
    exact hwords m w (hmodule ▸ hw)
  refine ⟨hsound, ⟨fun text => ?_, rfl, rfl, rfl, rfl, hcompiling, hrecovery, hpending⟩,
    ⟨rfl, fun _ _ => rfl, fun _ _ => rfl, fun m name => hdescribes fun w hw => ?_,
      fun m name => hdescribes fun w hw => ?_, rfl, fun k => ?_⟩⟩
  · show _ = (i.literal? text).filter Val.isSerializable
    cases hv : i.literal? text with
    | none => rfl
    | some v => rw [Option.filter_some_pos (hliteral hv)]
  · exact hwords m w (List.mem_reverse.mp (List.mem_of_find?_eq_some hw))
  · obtain ⟨imp, -, himp⟩ := List.exists_of_findSome?_eq_some hw
    cases ht : imp.target? name with
    | none =>
      rw [ht] at himp
      cases himp
    | some target =>
      rw [ht] at himp
      exact of_exportedWord? hmodules _ _ _ himp
  · show _ = (((List.range s.cells.size).map fun j => (j, s.fetch j)).lookup k).getD .null
    rw [lookup_range_map]
    split
    · rfl
    · rename_i hk
      rw [Store.fetch, Array.getElem?_eq_none (Nat.not_lt.mp hk)]

end Of

/-! ## Standard interpreters -/

/-- An interpreter whose core vocabulary is ready is new, but for the import of it. -/
theorem Interp.eq_of_standard {settings : Settings} {i : Interp} {s t : Store} {m : Nat}
    (h : standard s settings [] = .ok (i, t)) (hm : settings.registry.get? coreName = some m)
    (hlt : m < s.modules.size) (hready : (s.module m).isReady = true) :
    bare s settings true = .ok (i, (s.addModule { name := "" }).2.addPool.2) ∧
      t = (s.addModule { name := "" }).2.addPool.2.updateModule s.modules.size
        fun app => app.addImport ⟨m, ""⟩ := by
  obtain ⟨i₀, s₀, i₁, s₁, hbare, hcore, hi⟩ := of_standard h
  obtain ⟨-, hi₀, hs₀⟩ := of_bare hbare
  have hregistry : i₀.registry.get? coreName = some m := by
    rw [hi₀]
    exact hm
  obtain ⟨m', hm', hattach⟩ | ⟨hnone, -⟩ := of_withCore hcore
  swap
  · rw [hregistry] at hnone
    cases hnone
  obtain rfl : m = m' := Option.some.inj (hregistry.symm.trans hm')
  have happ : i₀.app = s.modules.size := by rw [hi₀]
  have hmodule : (s₀.updateModule i₀.app fun app => app.addImport ⟨m, ""⟩).module m =
      s.module m := by
    rw [hs₀, happ, Store.module_updateModule, if_neg fun hc => Nat.ne_of_lt hlt hc.1]
    exact (Store.module_addModule (s := s) _ m).trans (if_neg (Nat.ne_of_lt hlt))
  have hidle : i = i₀ := (congrArg Prod.fst (hi.trans hattach)).trans
    (if_pos ((congrArg Module.isReady hmodule).trans hready))
  have hstore : t = s₀.updateModule i₀.app fun app => app.addImport ⟨m, ""⟩ :=
    congrArg Prod.snd (hi.trans hattach)
  exact ⟨hidle ▸ hs₀ ▸ hbare, by rw [hstore, hs₀, happ]⟩

/-- A module without blocks and variables, whose words do what they say. -/
structure Module.Unused (x : Module) : Prop where
  children : x.children = []
  cells : x.cells = []
  words : ∀ w ∈ x.words, CellWord.Describes (some (CellWord.of w)) (some w)

namespace Module.Unused

theorem empty {x : Module} (hchildren : x.children = []) (hcells : x.cells = [])
    (hwords : x.words = []) : x.Unused :=
  ⟨hchildren, hcells, hwords ▸ List.forall_mem_nil _⟩

theorem addImport {x : Module} (h : x.Unused) (imp : Import) : (x.addImport imp).Unused :=
  ⟨h.children, h.cells, h.words⟩

theorem child_ne {x : Module} (h : x.Unused) (name : String) (k : Nat) :
    x.children.lookup name ≠ some k := by
  rw [h.children]
  exact Option.some_ne_none k ∘ Eq.symm

theorem cell_ne {x : Module} (h : x.Unused) (name : String) (k : Nat) :
    x.cell? name ≠ some k := by
  rw [Module.cell?, h.cells]
  exact Option.some_ne_none k ∘ Eq.symm

/-- The core vocabulary of the store that has nothing else. -/
theorem core (m : Nat) : (Store.core.module m).Unused := by
  obtain ⟨x, hx, hcore⟩ := Store.exists_core
  obtain ⟨-, hchildren, hcells⟩ := ModuleSpec.build_new hx
  rw [Store.module_core hcore]
  split
  · exact ⟨hchildren, hcells, fun w => CellWord.describes_of_build hx⟩
  · exact empty rfl rfl rfl

end Module.Unused

/-- A standard interpreter on a store without variables is in the state of a program without
variables. -/
theorem Cells.stands_of_standard {settings : Interp.Settings} {i : Interp} {s t : Store} {m : Nat}
    (h : Interp.standard s settings [] = .ok (i, t))
    (hm : settings.registry.get? coreName = some m) (hlt : m < s.modules.size)
    (hready : (s.module m).isReady = true) (hrecovery : settings.recovery = none)
    (hs : ∀ k, (s.module k).Unused) (hcells : s.cells = #[]) :
    (Cells.of i t).Stands (CellWords.of i t) i t := by
  obtain ⟨hbare, ht⟩ := Interp.eq_of_standard h hm hlt hready
  obtain ⟨-, hi, -⟩ := Interp.of_bare hbare
  have hmodule : ∀ k, (t.module k).Unused := fun k => by
    have hadded : ∀ k, ((s.addModule { name := "" }).2.module k).Unused := fun k => by
      rw [Store.module_addModule]
      split
      · exact .empty rfl rfl rfl
      · exact hs k
    rw [ht, Store.module_updateModule]
    split
    · exact (hadded s.modules.size).addImport _
    · exact hadded k
  have hcount : t.cells = #[] := by
    rw [ht]
    exact hcells
  have happ : s.modules.size < t.modules.size := by
    have hsize : t.modules.size = s.modules.size + 1 := by
      rw [ht]
      exact (Array.size_modify ..).trans (Array.size_push ..)
    exact hsize ▸ Nat.lt_succ_self _
  subst hi
  refine stands_of ⟨happ, List.forall_mem_singleton.mpr happ,
    fun hk => absurd hk ((hmodule _).child_ne _ _), fun hk => absurd hk ((hmodule _).cell_ne _ _),
    fun hk => absurd hk ((hmodule _).cell_ne _ _), fun hk => absurd hk ((hmodule _).cell_ne _ _),
    fun {k v} hv => ?_, List.forall_mem_nil _⟩ rfl hrecovery rfl (fun {text v} hv => ?_)
    fun m => (hmodule m).words
  · rw [of, hcount] at hv
    cases hv
  · obtain ⟨r, hr, hv⟩ := List.exists_of_findSome?_eq_some hv
    exact Literal.isSerializable_of_standard hr hv

/-- So is one with the core vocabulary alone. -/
theorem Cells.stands_of_core {i : Interp} {s : Store}
    (h : Interp.standard .core .emptyCore [] = .ok (i, s)) :
    (Cells.of i s).Stands (CellWords.of i s) i s := by
  obtain ⟨x, hx, hcore⟩ := Store.exists_core
  have hlt : 0 < Store.core.modules.size := by
    rw [hcore]
    exact Nat.zero_lt_one
  have hready : (Store.core.module 0).isReady = true := by
    rw [Store.module_core hcore, if_pos rfl, (ModuleSpec.build_new hx).1]
    rfl
  have hcells : Store.core.cells = #[] := by
    unfold Store.core
    rw [Store.define_of_build (s := {}) hx]
    rfl
  exact stands_of_standard h rfl hlt hready rfl .core hcells

/-! ## What is found stays -/

/-- All modules have the words, exports and imports that they had. -/
def Store.SameWords (s t : Store) : Prop :=
  ∀ m, (t.module m).words = (s.module m).words ∧ (t.module m).exports = (s.module m).exports ∧
    (t.module m).imports = (s.module m).imports

namespace Store.SameWords

variable {s t : Store}

theorem getElem?_of_isExported (h : s.SameWords t) {m : Nat} {x : Module} {name : String}
    (hx : s.modules[m]? = some x) (he : x.isExported name = true) :
    ∃ y, t.modules[m]? = some y ∧ y.words = x.words ∧ y.exports = x.exports ∧
      y.imports = x.imports := by
  have hsame := h m
  rw [show s.module m = x by rw [Store.module, hx]; rfl] at hsame
  cases hy : t.modules[m]? with
  | some y =>
    rw [show t.module m = y by rw [Store.module, hy]; rfl] at hsame
    exact ⟨y, rfl, hsame⟩
  | none =>
    rw [show t.module m = default by rw [Store.module, hy]; rfl] at hsame
    rw [Module.isExported, ← hsame.2.1] at he
    cases he

theorem symm (h : s.SameWords t) : t.SameWords s := fun m =>
  ⟨(h m).1.symm, (h m).2.1.symm, (h m).2.2.symm⟩

theorem exportedWord? (h : s.SameWords t) (barred : List Nat) (m : Nat) (name : String) :
    exportedWord? t.modules barred m name = Wordstack.exportedWord? s.modules barred m name := by
  fun_induction Wordstack.exportedWord? s.modules barred m name with
  | case1 barred m name hlt hb x he ih =>
    obtain ⟨y, hy, hwords, hexports, himports⟩ :=
      h.getElem?_of_isExported (Array.getElem?_eq_getElem hlt) he
    have hey : y.isExported name = true := by rwa [Module.isExported, hexports]
    rw [exportedWord?_of_exported hy (by simpa using hb) hey, himports, Module.ownWord?, hwords]
    refine congrArg (Option.or _) (congrArg (List.findSome? · _) (funext fun imp => ?_))
    cases imp.target? name with
    | none => rfl
    | some target => exact ih imp target
  | case2 barred m name hlt hb x he =>
    refine exportedWord?_eq_none (.inr fun y hy => Bool.eq_false_iff.mpr fun hey => he ?_)
    obtain ⟨x', hx, -, hexports, -⟩ := h.symm.getElem?_of_isExported hy hey
    obtain rfl := Option.some.inj ((Array.getElem?_eq_getElem hlt).symm.trans hx)
    rwa [Module.isExported, hexports]
  | case3 barred m name hlt hb => exact exportedWord?_of_barred (by simpa using hb)
  | case4 barred m name hlt =>
    refine exportedWord?_eq_none (.inr fun y hy => Bool.eq_false_iff.mpr fun hey => ?_)
    obtain ⟨x, hx, -⟩ := h.symm.getElem?_of_isExported hy hey
    rw [Array.getElem?_eq_none (Nat.not_lt.mp hlt)] at hx
    cases hx

theorem ownWord? (h : s.SameWords t) (m : Nat) (name : String) :
    (t.module m).ownWord? name = (s.module m).ownWord? name := by
  rw [Module.ownWord?, (h m).1, ← Module.ownWord?]

theorem importedWord? (h : s.SameWords t) (m : Nat) (name : String) :
    importedWord? t.modules m (t.module m).imports name =
      Wordstack.importedWord? s.modules m (s.module m).imports name := by
  unfold Wordstack.importedWord?
  rw [(h m).2.2]
  refine congrArg (List.findSome? · _) (funext fun imp => ?_)
  cases imp.target? name with
  | none => rfl
  | some target => exact h.exportedWord? [m] imp.module target

/-- A change of other parts of a module. -/
theorem updateModule (s : Store) (m : Nat) {f : Module → Module}
    (hf : ∀ x, (f x).words = x.words ∧ (f x).exports = x.exports ∧ (f x).imports = x.imports) :
    s.SameWords (s.updateModule m f) := fun k => by
  rw [module_updateModule]
  split
  · rename_i hk
    rw [hk.1]
    exact hf _
  · exact ⟨rfl, rfl, rfl⟩

/-- A new module without words, exports and imports. -/
theorem addModule (s : Store) (name : String) : s.SameWords (s.addModule { name }).2 := fun k => by
  rw [module_addModule]
  split
  · rename_i hk
    rw [module_of_size_le (Nat.le_of_eq hk.symm)]
    exact ⟨rfl, rfl, rfl⟩
  · exact ⟨rfl, rfl, rfl⟩

theorem trans {u : Store} (h : s.SameWords t) (h' : t.SameWords u) : s.SameWords u := fun m =>
  ⟨(h' m).1.trans (h m).1, (h' m).2.1.trans (h m).2.1, (h' m).2.2.trans (h m).2.2⟩

end Store.SameWords

/-! ## Changes of a state -/

theorem lookup_concat {α : Type} {entries : List (String × α)} {key : String} {value : α}
    (hnone : entries.lookup key = none) (text : String) :
    (entries ++ [(key, value)]).lookup text =
      if text = key then some value else entries.lookup text := by
  rw [List.lookup_append]
  split
  · rename_i he
    subst he
    rw [hnone, Option.none_or, List.lookup_cons_self]
  · rename_i hne
    rw [List.lookup_cons, beq_eq_false_iff_ne.mpr hne]
    exact Option.or_none

theorem Store.module_updateModule_of_lt {s : Store} {m : Nat} (f : Module → Module)
    (hm : m < s.modules.size) (n : Nat) :
    (s.updateModule m f).module n = if n = m then f (s.module m) else s.module n := by
  rw [module_updateModule]
  simp only [hm, and_true]

namespace Cells

variable {W : CellWords} {c d : Cells} {e : Nested} {i : Interp} {s t : Store} {k m : Nat} {v : Val}
  {name : String}

theorem OfInterp.of_eq (h : c.OfInterp W i) (happ : d.app = c.app) (hscope : d.scope = c.scope)
    (hstack : d.stack = c.stack) (hmarks : d.marks = c.marks) : d.OfInterp W i :=
  ⟨h.literal, h.app.trans happ.symm, h.scope.trans hscope.symm, h.stack.trans hstack.symm,
    h.marks.trans hmarks.symm, h.compiling, h.recovery, h.pending⟩

theorem OfStore.of_eq (h : c.OfStore W s) (hmodules : d.modules = c.modules)
    (hchild : d.child? = c.child?) (hcell : d.cell? = c.cell?) (hcount : d.count = c.count)
    (hstores : d.stores = c.stores) : d.OfStore W s :=
  ⟨h.modules.trans hmodules.symm, fun m name => hchild ▸ h.child m name,
    fun m name => hcell ▸ h.cell m name, h.own, h.imported, h.count.trans hcount.symm,
    fun k => (h.fetch k).trans (by rw [value, value, hstores])⟩

/-- A new variable of a module, with a new cell. -/
theorem OfStore.addCell (h : c.OfStore W s) (hm : m < c.modules) (hnone : c.cell? m name = none) :
    (c.addCell m name).OfStore W
      ((s.addCell .null).2.updateModule m fun x => x.addVariable name s.cells.size) := by
  have hwords : s.SameWords _ := Store.SameWords.updateModule (s.addCell .null).2 m
    (f := fun x => x.addVariable name s.cells.size) fun x => ⟨rfl, rfl, rfl⟩
  have hmodule := Store.module_updateModule_of_lt (s := (s.addCell .null).2)
    (fun x => x.addVariable name s.cells.size) (h.modules ▸ hm)
  refine ⟨(Array.size_modify ..).trans h.modules, fun n text => ?_, fun n text => ?_,
    fun n text => hwords.ownWord? n text ▸ h.own n text,
    fun n text => hwords.importedWord? n text ▸ h.imported n text,
    (Array.size_push ..).trans (congrArg (· + 1) h.count), fun k => ?_⟩
  · rw [hmodule]
    show _ = c.child? n text
    rw [← h.child]
    split
    · rename_i hnm
      rw [hnm]
      rfl
    · rfl
  · rw [hmodule]
    show _ = if n = m ∧ text = name then some c.count else c.cell? n text
    by_cases hnm : n = m
    · subst hnm
      rw [if_pos rfl, ← h.cell, ← h.count]
      refine (lookup_concat ((h.cell n name).trans hnone) text).trans ?_
      by_cases he : text = name
      · rw [if_pos he, if_pos ⟨rfl, he⟩]
      · rw [if_neg he, if_neg fun hc => he hc.2]
        rfl
    · rw [if_neg hnm, if_neg fun hc => hnm hc.1, ← h.cell]
      rfl
  · refine Eq.trans ?_ (h.fetch k)
    show (s.addCell .null).2.fetch k = _
    rw [Store.fetch_addCell]
    split
    · rename_i hk
      rw [Store.fetch, Array.getElem?_eq_none (Nat.le_of_eq hk.symm)]
      rfl
    · rfl

/-- A new module for a block inside a module. -/
theorem OfStore.addChild (h : c.OfStore W s) (hm : m < c.modules) (hnone : c.child? m name = none) :
    (c.addChild m name).OfStore W
      ((s.addModule { name }).2.updateModule m fun x => x.addChild name s.modules.size) := by
  have hwords : s.SameWords _ := (Store.SameWords.addModule s name).trans
    (Store.SameWords.updateModule (s.addModule { name }).2 m
      (f := fun x => x.addChild name s.modules.size) fun x => ⟨rfl, rfl, rfl⟩)
  have hsize : (s.addModule { name }).2.modules.size = s.modules.size + 1 := Array.size_push ..
  have hlt : m < (s.addModule { name }).2.modules.size := by
    rw [hsize, h.modules]
    exact Nat.lt_succ_of_lt hm
  have hmodule := Store.module_updateModule_of_lt (fun x => x.addChild name s.modules.size) hlt
  -- the new module is as empty as what stands for a module that is missing
  have hold : ∀ n, ((s.addModule { name }).2.module n).children = (s.module n).children ∧
      ((s.addModule { name }).2.module n).cells = (s.module n).cells := fun n => by
    rw [Store.module_addModule]
    split
    · rename_i hn
      rw [Store.module_of_size_le (Nat.le_of_eq hn.symm)]
      exact ⟨rfl, rfl⟩
    · exact ⟨rfl, rfl⟩
  refine ⟨(Array.size_modify ..).trans (hsize.trans (congrArg (· + 1) h.modules)),
    fun n text => ?_, fun n text => ?_, fun n text => hwords.ownWord? n text ▸ h.own n text,
    fun n text => hwords.importedWord? n text ▸ h.imported n text, h.count, h.fetch⟩
  · rw [hmodule]
    show _ = if n = m ∧ text = name then some c.modules else c.child? n text
    by_cases hnm : n = m
    · subst hnm
      rw [if_pos rfl, ← h.child, ← h.modules]
      show ((Store.module _ n).children ++ [(name, s.modules.size)]).lookup text = _
      rw [(hold n).1, lookup_concat ((h.child n name).trans hnone)]
      by_cases he : text = name
      · rw [if_pos he, if_pos ⟨rfl, he⟩]
      · rw [if_neg he, if_neg fun hc => he hc.2]
    · rw [if_neg hnm, if_neg fun hc => hnm hc.1, ← h.child, (hold n).1]
  · rw [hmodule]
    refine Eq.trans ?_ (h.cell n text)
    unfold Module.cell?
    split
    · rename_i hnm
      rw [hnm]
      exact congrArg (List.lookup text) (hold m).2
    · exact congrArg (List.lookup text) (hold n).2

namespace Stands

/-- Texts, places and counts make no difference. -/
theorem placed (h : c.Stands W i s) (inputs : List String) (call previous : Option Location)
    (profile : Profile) : c.Stands W (i.placed inputs call previous profile) s :=
  ⟨h.sound, ⟨h.interp.literal, h.interp.app, h.interp.scope, h.interp.stack, h.interp.marks,
    h.interp.compiling, h.interp.recovery, h.interp.pending⟩, h.store⟩

theorem onStack (h : c.Stands W i s) {stack : OperandStack}
    (hs : ∀ v ∈ stack.values, v.RefersBelow c.count) :
    Stands W { c with stack } { i with stack } s :=
  ⟨h.sound.onStack hs, ⟨h.interp.literal, h.interp.app, h.interp.scope, rfl, h.interp.marks,
    h.interp.compiling, h.interp.recovery, h.interp.pending⟩, h.store.of_eq rfl rfl rfl rfl rfl⟩

theorem onMarks (h : c.Stands W i s) {marks marks' : List Nat} (he : marks' = marks) :
    Stands W { c with marks } { i with marks := marks' } s :=
  ⟨h.sound.onMarks marks, ⟨h.interp.literal, h.interp.app, h.interp.scope, h.interp.stack, he,
    h.interp.compiling, h.interp.recovery, h.interp.pending⟩, h.store.of_eq rfl rfl rfl rfl rfl⟩

theorem onScope (h : c.Stands W i s) {scope scope' : List Nat} (he : scope' = scope)
    (hs : ∀ m ∈ scope, m < c.modules) : Stands W { c with scope } { i with scope := scope' } s :=
  ⟨h.sound.onScope hs, ⟨h.interp.literal, h.interp.app, he, h.interp.stack, h.interp.marks,
    h.interp.compiling, h.interp.recovery, h.interp.pending⟩, h.store.of_eq rfl rfl rfl rfl rfl⟩

theorem push (h : c.Stands W i s) (hv : v.RefersBelow c.count) :
    (c.push v).Stands W { i with stack := i.stack.push v } s := by
  rw [h.interp.stack]
  exact h.onStack (List.forall_mem_cons.mpr ⟨hv, h.sound.stack⟩)

theorem pop {rest : List Val} (h : c.Stands W i s) (hs : c.stack.values = v :: rest) :
    Stands W { c with stack := ⟨rest⟩ } { i with stack := ⟨rest⟩ } s ∧ v.RefersBelow c.count :=
  ⟨h.onStack (h.sound.pop hs).1.stack, (h.sound.pop hs).2⟩

theorem put (h : c.Stands W i s) (hk : k < c.count) (hv : v.RefersBelow c.count) :
    (c.put k v).Stands W i (s.put k v) := by
  refine ⟨h.sound.put hk hv, h.interp.of_eq rfl rfl rfl rfl, h.store.modules, h.store.child,
    h.store.cell, h.store.own, h.store.imported, (Array.size_setIfInBounds ..).trans h.store.count,
    fun j => ?_⟩
  rw [Store.fetch_put, h.store.count, h.store.fetch]
  by_cases hj : j = k
  · subst hj
    rw [if_pos ⟨rfl, hk⟩, value_put_self]
  · rw [if_neg fun h => hj h.1, value_put_of_ne c v hj]

/-- A name denotes the same cell in the store. -/
theorem named (h : c.Stands W i s) (hm : m < c.modules) (hn : Text.startsWith name "__" = false) :
    (s.variableCell m name .null).1 = (c.named m name).1 ∧
      (c.named m name).2.Stands W i (s.variableCell m name .null).2 := by
  unfold Store.variableCell Cells.named
  rw [h.store.cell]
  cases hcell : c.cell? m name with
  | some k => exact ⟨rfl, h⟩
  | none =>
    exact ⟨h.store.count, h.sound.addCell m hn, h.interp.of_eq rfl rfl rfl rfl,
      h.store.addCell hm hcell⟩

/-- The module of a block that is entered for the first time. -/
theorem addChild (h : c.Stands W i s) (hm : m < c.modules) (hnone : c.child? m name = none)
    (registered : List (String × Nat)) : (c.addChild m name).Stands W { i with registered }
      ((s.addModule { name }).2.updateModule m fun x => x.addChild name s.modules.size) :=
  ⟨h.sound.addChild m name, ⟨h.interp.literal, h.interp.app, h.interp.scope, h.interp.stack,
    h.interp.marks, h.interp.compiling, h.interp.recovery, h.interp.pending⟩,
    h.store.addChild hm hnone⟩

end Stands

end Cells

end Wordstack
