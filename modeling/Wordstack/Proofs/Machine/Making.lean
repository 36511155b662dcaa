import Wordstack.Machine.Standard
import Wordstack.Module.Define
import Wordstack.Proofs.Fault.Blame

/-!
# What making modules and interpreters comes to

A module that is built from a declaration has words with the code and the handlers that are declared,
and labels of their own. An interpreter is made step by step. There is a module, or an interpreter,
only if every step has succeeded.

- **Building** (`ModuleSpec.exists_words_of_build`): words are added to a new module one by one, and
  then their names to its exports. The module is new (`ModuleSpec.build_new`), and its words have
  every property that the declared ones have and that does not depend on labels
  (`ModuleSpec.of_build`).
- **Declared modules** (`Store.of_define`): they come behind the modules that there are.
- **The core vocabulary** (`Interp.of_withCore`): that of the registry, or a new one.
- **Interpreters** (`Interp.of_bare`, `Interp.of_standard`, `Interp.of_plain`): the steps in order.
- **What is not looked at** (`Interp.standard_revised`): memos, and requests that were sent.
-/

namespace Wordstack

/-! ## Declared modules -/

theorem NativeSpec.of_word {spec : NativeSpec} {w : Word} (h : spec.word = .ok w) :
    ∃ label inputs hasOptions, label.name = spec.name ∧
      w = .native label inputs hasOptions spec.waits spec.code spec.handlers := by
  obtain ⟨effect, -, h⟩ := Except.of_bind_ok h
  exact ⟨_, _, _, rfl, (Except.ok.inj h).symm⟩

theorem DirectSpec.of_word {spec : DirectSpec} {w : Word} (h : spec.word = .ok w) :
    ∃ label, label.name = spec.name ∧ w = .direct label spec.waits spec.code spec.handlers := by
  unfold word at h
  split at h
  · obtain ⟨_, -, h⟩ := Except.of_bind_ok h
    exact ⟨_, rfl, (Except.ok.inj h).symm⟩
  · exact ⟨_, rfl, (Except.ok.inj h).symm⟩

theorem NativeSpec.name_of_word {spec : NativeSpec} {w : Word} (h : spec.word = .ok w) :
    w.name = spec.name := by
  obtain ⟨label, _, _, hname, rfl⟩ := spec.of_word h
  exact hname

theorem DirectSpec.name_of_word {spec : DirectSpec} {w : Word} (h : spec.word = .ok w) :
    w.name = spec.name := by
  obtain ⟨label, hname, rfl⟩ := spec.of_word h
  exact hname

/-- Every item of a list built item by item is built from one of the list it is built from. -/
theorem mem_of_mapM {α β : Type} {f : α → Except Fault β} {xs : List α} {ys : List β}
    (h : xs.mapM f = .ok ys) {y : β} (hy : y ∈ ys) : ∃ x ∈ xs, f x = .ok y := by
  induction xs generalizing ys with
  | nil =>
    obtain rfl : [] = ys := Except.ok.inj h
    exact absurd hy List.not_mem_nil
  | cons x xs ih =>
    rw [List.mapM_cons] at h
    obtain ⟨z, hz, h⟩ := Except.of_bind_ok h
    obtain ⟨zs, hzs, h⟩ := Except.of_bind_ok h
    obtain rfl : z :: zs = ys := Except.ok.inj h
    obtain rfl | hy := List.mem_cons.mp hy
    · exact ⟨x, List.mem_cons_self, hz⟩
    · obtain ⟨x', hx', he⟩ := ih hzs hy
      exact ⟨x', List.mem_cons_of_mem _ hx', he⟩

namespace ModuleSpec

variable {P : Word → Prop} {spec : ModuleSpec}

/-- The words of a declaration are those of its entries. -/
theorem of_mem_words {ws : List Word} {w : Word} (h : spec.words = .ok ws) (hw : w ∈ ws) :
    (∃ s ∈ spec.natives, s.word = .ok w) ∨ ∃ s ∈ spec.directs, s.word = .ok w := by
  obtain ⟨ns, hns, h⟩ := Except.of_bind_ok h
  obtain ⟨ds, hds, h⟩ := Except.of_bind_ok h
  obtain rfl : ns ++ ds = ws := Except.ok.inj h
  exact (List.mem_append.mp hw).imp (mem_of_mapM hns) (mem_of_mapM hds)

theorem of_words {ws : List Word} (h : spec.words = .ok ws)
    (hn : ∀ s ∈ spec.natives, ∀ label inputs hasOptions,
      P (.native label inputs hasOptions s.waits s.code s.handlers))
    (hd : ∀ s ∈ spec.directs, ∀ label, P (.direct label s.waits s.code s.handlers)) :
    ∀ w ∈ ws, P w := by
  intro w hw
  obtain ⟨s, hs, he⟩ | ⟨s, hs, he⟩ := of_mem_words h hw
  · obtain ⟨_, _, _, -, rfl⟩ := s.of_word he
    exact hn s hs _ _ _
  · obtain ⟨_, -, rfl⟩ := s.of_word he
    exact hd s hs _

/-- The words are numbered and added one by one to a new module, and then the names to export. -/
theorem exists_words_of_build {id : Nat} {m : Module} (h : spec.build id = .ok m) :
    ∃ ws, spec.words = .ok ws ∧
      m = ((ws.zipIdx id).foldl (fun x w => x.addWord w.2 w.1)
        (Module.new spec.name spec.description spec.source spec.runtimeSpecific)).addExports
          (spec.exports.getD (ws.map Word.name)) := by
  obtain ⟨ws, hws, h⟩ := Except.of_bind_ok h
  dsimp only at h
  split at h
  · cases h
  · exact ⟨ws, hws, (Except.ok.inj h).symm⟩

theorem name_of_build {id : Nat} {m : Module} (h : spec.build id = .ok m) :
    m.name = spec.name := by
  obtain ⟨ws, -, rfl⟩ := exists_words_of_build h
  exact List.foldlRecOn (motive := fun x : Module => x.name = spec.name) (ws.zipIdx id) _ rfl
    fun _ hx _ _ => hx

/-- A declared module has no blocks and no variables, and is ready unless it has a source. -/
theorem build_new {id : Nat} {m : Module} (h : spec.build id = .ok m) :
    m.isReady = spec.source.isEmpty ∧ m.children = [] ∧ m.cells = [] := by
  obtain ⟨ws, -, rfl⟩ := exists_words_of_build h
  exact List.foldlRecOn (motive := fun x : Module => x.isReady = spec.source.isEmpty ∧
    x.children = [] ∧ x.cells = []) (ws.zipIdx id) _ ⟨rfl, rfl, rfl⟩ fun _ hx _ _ => hx

/-- The words of a module that is built are the declared ones, numbered and with the name of their
module. -/
theorem exists_declared_of_build {id : Nat} {m : Module} {w : Word} (h : spec.build id = .ok m)
    (hw : w ∈ m.words) : ∃ ws v k, spec.words = .ok ws ∧ v ∈ ws ∧
      w = v.relabel fun l => { l with id := some k, home := some spec.name } := by
  obtain ⟨ws, hws, rfl⟩ := exists_words_of_build h
  let Named := fun x : Module => x.name = spec.name ∧ ∀ w ∈ x.words, ∃ v k, v ∈ ws ∧
    w = v.relabel fun l => { l with id := some k, home := some spec.name }
  have hnew : Named (.new spec.name spec.description spec.source spec.runtimeSpecific) :=
    ⟨rfl, fun _ hu => absurd hu List.not_mem_nil⟩
  have hall : Named ((ws.zipIdx id).foldl (fun m w => m.addWord w.2 w.1) _) :=
    List.foldlRecOn _ _ hnew fun x hx w' hw' => ⟨hx.1, fun u hu => by
      rcases List.mem_append.mp hu with hu | hu
      · exact hx.2 u hu
      · obtain rfl := List.mem_singleton.mp hu
        exact ⟨w'.1, w'.2, List.fst_mem_of_mem_zipIdx hw', by rw [hx.1]⟩⟩
  obtain ⟨v, k, hv⟩ := hall.2 w hw
  exact ⟨ws, v, k, hws, hv⟩

/-- The words of a module that is built have what the declared ones have under all labels. -/
theorem of_build {id : Nat} {m : Module} (h : spec.build id = .ok m)
    (hP : ∀ {f : WordLabel → WordLabel} {w : Word}, P w → P (w.relabel f))
    (hn : ∀ s ∈ spec.natives, ∀ label inputs hasOptions,
      P (.native label inputs hasOptions s.waits s.code s.handlers))
    (hd : ∀ s ∈ spec.directs, ∀ label, P (.direct label s.waits s.code s.handlers)) :
    ∀ w ∈ m.words, P w := by
  intro w hw
  obtain ⟨ws, v, k, hws, hv, rfl⟩ := exists_declared_of_build h hw
  exact hP (of_words hws hn hd v hv)

end ModuleSpec

/-! ## Steps -/

/-- A declared module is added behind the others. -/
theorem Store.of_define {s t : Store} {spec : ModuleSpec} {m : Nat}
    (h : s.define spec = .ok (m, t)) :
    ∃ x, spec.build s.nextId = .ok x ∧ m = s.modules.size ∧
      t = (Store.addModule { s with nextId := s.nextId + x.words.length } x).2 := by
  obtain ⟨x, hbuild, h⟩ := Except.of_bind_ok h
  obtain ⟨rfl, rfl⟩ := Prod.mk.inj (Except.ok.inj h)
  exact ⟨x, hbuild, rfl, rfl⟩

namespace Interp

variable {s t : Store} {i : Interp} {is : Interp × Store} {settings : Settings} {ms : List Nat}

/-- The time zone is known, and the interpreter has a new outermost module and new connections. -/
theorem of_bare {isStandard : Bool} (h : bare s settings isStandard = .ok (i, t)) :
    Calendar.isZone (settings.zone.getD "UTC") = true ∧
      i = { isStandard, registry := settings.registry, zone := settings.zone.getD "UTC"
            maxAttempts := settings.maxAttempts.getD defaultAttempts
            recovery := settings.recovery, app := s.modules.size, scope := [s.modules.size]
            readers := Literal.standard (settings.zone.getD "UTC") s.now, pool := s.pools.size } ∧
      t = (s.addModule { name := "" }).2.addPool.2 := by
  unfold bare at h
  dsimp only at h
  split at h
  · rename_i hzone
    obtain ⟨rfl, rfl⟩ := Prod.mk.inj (Except.ok.inj h)
    exact ⟨hzone, rfl, rfl⟩
  · cases h

theorem withCore_of_none (h : i.registry.get? coreName = none) :
    i.withCore s = (s.define coreModule).map fun p => Interp.attach (i, p.2) p.1 := by
  unfold withCore
  rw [h]
  cases s.define coreModule with
  | error f => rfl
  | ok p => rfl

/-- The core vocabulary of the registry is imported, or a new one is attached. -/
theorem of_withCore (h : i.withCore s = .ok is) :
    (∃ m, i.registry.get? coreName = some m ∧ is = importAtCreation (i, s) m) ∨
      i.registry.get? coreName = none ∧
        ∃ m t, s.define coreModule = .ok (m, t) ∧ is = attach (i, t) m := by
  unfold withCore at h
  split at h
  · rename_i m hm
    exact .inl ⟨m, hm, (Except.ok.inj h).symm⟩
  · rename_i hnone
    obtain ⟨⟨m, t⟩, hdefine, h⟩ := Except.of_bind_ok h
    exact .inr ⟨hnone, m, t, hdefine, (Except.ok.inj h).symm⟩

theorem of_standard (h : standard s settings ms = .ok is) :
    ∃ i₀ s₀ i₁ s₁, bare s settings true = .ok (i₀, s₀) ∧ i₀.withCore s₀ = .ok (i₁, s₁) ∧
      is = ms.foldl attach (i₁, s₁) := by
  obtain ⟨⟨i₀, s₀⟩, hbare, h⟩ := Except.of_bind_ok h
  obtain ⟨⟨i₁, s₁⟩, hcore, h⟩ := Except.of_bind_ok h
  exact ⟨i₀, s₀, i₁, s₁, hbare, hcore, (Except.ok.inj h).symm⟩

theorem of_plain (h : plain s settings ms = .ok is) :
    ∃ i₀ s₀, bare s settings false = .ok (i₀, s₀) ∧ is = ms.foldl attach (i₀, s₀) := by
  obtain ⟨⟨i₀, s₀⟩, hbare, h⟩ := Except.of_bind_ok h
  exact ⟨i₀, s₀, hbare, (Except.ok.inj h).symm⟩

end Interp

/-! ## What is not looked at -/

/-- The store with other memos and another record of the requests sent. -/
def Store.revised (s : Store) (f : Array Memo → Array Memo)
    (g : List SentRequest → List SentRequest) : Store :=
  { s with memos := f s.memos, sent := g s.sent }

namespace Interp

variable {s : Store} {i : Interp} {settings : Settings} {ms : List Nat}
  {f : Array Memo → Array Memo} {g : List SentRequest → List SentRequest}

theorem bare_revised (isStandard : Bool) :
    bare (s.revised f g) settings isStandard =
      (bare s settings isStandard).map fun p => (p.1, p.2.revised f g) := by
  unfold bare
  dsimp only
  split
  · rfl
  · rfl

theorem withCore_revised :
    i.withCore (s.revised f g) = (i.withCore s).map fun p => (p.1, p.2.revised f g) := by
  cases h : i.registry.get? coreName with
  | some m =>
    unfold withCore
    rw [h]
    rfl
  | none =>
    have hdefine : (s.revised f g).define coreModule =
        (s.define coreModule).map fun p => (p.1, p.2.revised f g) := by
      unfold Store.define
      rw [show (s.revised f g).nextId = s.nextId from rfl]
      cases coreModule.build s.nextId with
      | error f => rfl
      | ok m => rfl
    rw [withCore_of_none h, withCore_of_none h, hdefine]
    cases s.define coreModule with
    | error f => rfl
    | ok p => rfl

theorem attach_revised (m : Nat) :
    attach (i, s.revised f g) m = ((attach (i, s) m).1, (attach (i, s) m).2.revised f g) := rfl

theorem attachAll_revised (ms : List Nat) :
    ms.foldl attach (i, s.revised f g) =
      ((ms.foldl attach (i, s)).1, (ms.foldl attach (i, s)).2.revised f g) := by
  induction ms generalizing i s with
  | nil => rfl
  | cons m ms ih => rw [List.foldl_cons, List.foldl_cons, attach_revised, ih]

/-- Making an interpreter looks neither at memos nor at the requests sent. -/
theorem standard_revised (s : Store) (f : Array Memo → Array Memo)
    (g : List SentRequest → List SentRequest) (settings : Settings) (ms : List Nat) :
    standard (s.revised f g) settings ms =
      (standard s settings ms).map fun p => (p.1, p.2.revised f g) := by
  unfold standard
  rw [bare_revised]
  cases bare s settings true with
  | error f => rfl
  | ok p =>
    simp only [Except.map, bind, Except.bind]
    rw [withCore_revised]
    cases p.1.withCore p.2 with
    | error f => rfl
    | ok q => exact congrArg Except.ok (attachAll_revised ms)

end Interp

end Wordstack
