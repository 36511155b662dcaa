import Wordstack.Proofs.Bridge.Twinned

/-!
# Stateless runtimes have no history

The modules of a runtime are all that its requests share. If they hold no state, a request is served
as if it were the first one: the runs after any other requests and after none are twins.

- **Starting** (`Runtime.module_of_start`): ready modules stay as they are while sources are run.
- **Histories** (`Library.kept_serveAll`): requests leave the modules of the runtime as they are.
- **Stateless runtimes** (`Runtime.Stateless`): no variable, no memo word and no code that depends on
  more than it is given, in no module that code can come upon. Modules of uniform code are such
  (`ModuleSpec.Uniform.stateless`).
- **The result** (`responses_without_history`).
-/

namespace Wordstack

/-! ## Starting -/

section Start

variable {depth : Nat} {modules : List Nat} {zone : Option String} {maxAttempts : Option Binary64}
  {i j : Interp} {s t : Store} {r : Runtime}

/-- Starting stays in every territory in which the registered modules are known. -/
theorem Runtime.holds_start
    (h : (Runtime.start (nested depth) modules zone maxAttempts).finish i s = .ended (.ok r) j t) :
    ∃ registry base, Runtime.assemble s modules = .ok (registry, base) ∧
      ∀ T : Territory, T.base = base → (∀ m ∈ registry.modules, T.Known m) → T.Holds t := by
  obtain ⟨registry, base, loader, s₂, k, s₃, hassemble, hloader, hall, -, hrest⟩ := of_start h
  refine ⟨registry, base, hassemble, fun T hbase hknown => hrest T ?_⟩
  subst hbase
  have hmade := Territory.made_of_standard T.holds_base
    ⟨fun e he => hknown e.2 (List.mem_map_of_mem he),
      fun h hmem => absurd hmem (Option.not_mem_none h)⟩
    (fun _ hm => absurd hm List.not_mem_nil) hloader
  exact ((keeps_initializeAll (T.confines_nested depth) hknown).of_ok hmade.within hmade.holds
    hall).2.2

/-- A registry is assembled of the modules as they are. The core vocabulary may be added to them. -/
theorem Runtime.module_of_assemble {registry : Registry}
    (h : Runtime.assemble s modules = .ok (registry, t)) :
    s.modules.size ≤ t.modules.size ∧
      ∀ m, t.module m = s.module m ∨ m = s.modules.size ∧ (t.module m).children = [] := by
  obtain ⟨-, -, rfl⟩ | ⟨-, first, hdefine, -⟩ := of_assemble h
  · exact ⟨Nat.le_refl _, fun m => .inl rfl⟩
  obtain ⟨x, hbuild, rfl, rfl⟩ := Store.of_define hdefine
  refine ⟨Nat.le_of_lt (Nat.lt_of_lt_of_eq (Nat.lt_succ_self _) (Array.size_push ..).symm),
    fun m => ?_⟩
  rw [Store.module_addModule]
  by_cases hm : m = s.modules.size
  · rw [if_pos hm]
    exact .inr ⟨hm, (ModuleSpec.build_new hbuild).2.1⟩
  · rw [if_neg hm]
    exact .inl rfl

/-- Starting leaves a module as it is that is ready and no block of another one. -/
theorem Runtime.module_of_start {m : Nat} (hm : m < s.modules.size)
    (hready : (s.module m).isReady = true) (hblocks : ∀ k, ∀ c ∈ (s.module k).children, c.2 ≠ m)
    (h : (Runtime.start (nested depth) modules zone maxAttempts).finish i s = .ended (.ok r) j t) :
    t.module m = s.module m := by
  obtain ⟨registry, base, hassemble, hholds⟩ := holds_start h
  obtain ⟨hsize, hmodule⟩ := module_of_assemble hassemble
  have hbase : base.module m = s.module m :=
    (hmodule m).resolve_right fun h => Nat.ne_of_lt hm h.1
  have hknown : ∀ k, k ≠ m ∨ (base.module k).isReady = true := fun k => by
    by_cases hk : k = m
    · exact .inr (hk ▸ hbase ▸ hready)
    · exact .inl hk
  let T := Territory.visible base (· ≠ m) (· ≠ m) id
    (fun {k} hk => Nat.ne_of_gt (Nat.lt_of_lt_of_le hm (Nat.le_trans hsize hk)))
    (fun {k} _ c hc => by
      obtain e | ⟨-, e⟩ := hmodule k
      · exact hblocks k c (e ▸ hc)
      · rw [e] at hc
        cases hc)
    fun _ _ e _ => hknown e.2
  have ht : T.Holds t := hholds T rfl fun k _ => hknown k
  exact (ht.kept (not_not_intro rfl)).trans hbase

end Start

/-! ## Histories -/

/-- The store at another time, with other readings of the clock to come. -/
def Store.timed (s : Store) (now : Int) (clock : Nat → Binary64) : Store :=
  { s with now, clock, readings := 0 }

namespace Library

variable {L : Library} {s : Store} {r : Runtime} {depth : Nat}

/-- Requests leave the modules of the library as they are: a request is its own twin. -/
theorem kept_serve (hr : L.Serves r) (hs : L.Kept s) (request : Runtime.Request) :
    L.Kept (r.serve (nested depth) s request) :=
  let T : Twins := ⟨L, s, s, hs, hs⟩
  (T.stores_serve (T.runs_nested depth) hr (.start T fun _ => rfl) request).left

theorem kept_serveAll (hr : L.Serves r) (hs : L.Kept s) (requests : List Runtime.Request) :
    L.Kept (r.serveAll (nested depth) s requests) := by
  induction requests generalizing s with
  | nil => exact hs
  | cons request rest ih => exact ih (kept_serve hr hs request)

/-- The library at another time. -/
def timed (L : Library) (now : Int) (clock : Nat → Binary64) : Library where
  base := L.base.timed now clock
  known := L.known
  exist := L.exist
  cells := L.cells
  words := L.words
  imports := L.imports

theorem Kept.timed (h : L.Kept s) (now : Int) (clock : Nat → Binary64) :
    (L.timed now clock).Kept (s.timed now clock) :=
  ⟨h.size, h.ids, rfl, h.module⟩

end Library

/-! ## Stateless runtimes -/

/-- What code of a runtime can come upon: the registered modules, and what they import. -/
inductive Runtime.Reaches (r : Runtime) (s : Store) : Nat → Prop
  | registered {m : Nat} (h : m ∈ r.registry.modules) : Reaches r s m
  | imported {m : Nat} {imp : Import} (h : Reaches r s m) (himp : imp ∈ (s.module m).imports) :
    Reaches r s imp.module

/-- Code comes upon registered modules only, if these import nothing. -/
theorem Runtime.Reaches.mem_modules {r : Runtime} {s : Store} {m : Nat} (h : r.Reaches s m)
    (himports : ∀ k ∈ r.registry.modules, (s.module k).imports = []) : m ∈ r.registry.modules := by
  induction h with
  | registered h => exact h
  | imported _ himp ih => exact absurd himp (himports _ ih ▸ List.not_mem_nil)

/-- A module without variables and memo words, whose code depends on what it is given only. -/
structure Module.Stateless (issued : Nat) (x : Module) : Prop where
  cells : x.cells = []
  words : ∀ w ∈ x.words, w.Stateless issued

theorem Module.Stateless.addWord {issued id : Nat} {x : Module} {w : Word} (h : x.Stateless issued)
    (hw : (w.relabel fun l => { l with id := some id, home := some x.name }).Stateless issued) :
    (x.addWord id w).Stateless issued := by
  refine ⟨h.cells, fun v hv => ?_⟩
  obtain hv | hv := List.mem_append.mp hv
  · exact h.words v hv
  · exact List.mem_singleton.mp hv ▸ hw

theorem Module.length_addWords (x : Module) (ws : List Word) (firstId : Nat) :
    ((ws.zipIdx firstId).foldl (fun m w => m.addWord w.2 w.1) x).words.length =
      x.words.length + ws.length := by
  induction ws generalizing x firstId with
  | nil => rfl
  | cons w ws ih =>
    rw [List.zipIdx_cons, List.foldl_cons, ih, Module.addWord, List.length_append,
      List.length_singleton, List.length_cons]
    omega

/-- A declared module of uniform code has no state. -/
theorem ModuleSpec.Uniform.stateless {spec : ModuleSpec} (h : spec.Uniform) {firstId : Nat}
    {x : Module} (hx : spec.build firstId = .ok x) :
    x.Stateless (firstId + x.words.length) := by
  obtain ⟨ws, hw, rfl⟩ := ModuleSpec.exists_words_of_build hx
  let empty := Module.new spec.name spec.description spec.source spec.runtimeSpecific
  have hword : ∀ w ∈ ws, ∀ {f : WordLabel → WordLabel} {issued : Nat},
      (∀ l, (f l).Issued issued) → (w.relabel f).Stateless issued := by
    refine of_words hw (fun s hs l _ _ f issued hf => ?_) fun s hs l f issued hf => ?_
    · rw [Word.relabel, Word.Stateless]
      exact ⟨hf l, h.natives s hs⟩
    · rw [Word.relabel, Word.Stateless]
      exact ⟨hf l, h.directs s hs⟩
  have hlength := (empty.length_addWords ws firstId).trans (Nat.zero_add _)
  have hall := List.foldlRecOn (motive := Module.Stateless (firstId + ws.length))
    (ws.zipIdx firstId) (fun m w => m.addWord w.2 w.1) (b := empty)
    ⟨rfl, fun _ hw => absurd hw List.not_mem_nil⟩
    fun y hy w hw => hy.addWord (hword w.1 (List.fst_mem_of_mem_zipIdx hw) fun l id hid =>
      Option.some.inj hid ▸ List.snd_lt_add_of_mem_zipIdx hw)
  rw [← hlength] at hall
  exact ⟨hall.cells, hall.words⟩

/-- No module that code of a runtime can come upon has state. -/
def Runtime.Stateless (r : Runtime) (s : Store) : Prop :=
  ∀ m, r.Reaches s m → m < s.modules.size ∧ (s.module m).Stateless s.nextId

/-- The modules of a stateless runtime. -/
def Runtime.Stateless.library {r : Runtime} {s : Store} (h : r.Stateless s) : Library where
  base := s
  known := r.Reaches s
  exist hm := (h _ hm).1
  cells hm := (h _ hm).2.cells
  words hm := (h _ hm).2.words
  imports hm _ himp := .imported hm himp

/-- A runtime whose modules hold no state answers every request after any history as it does right
after its start, if the clock shows the same. -/
theorem responses_without_history {depth : Nat} {modules : List Nat} {zone : Option String}
    {maxAttempts : Option Binary64} {i j : Interp} {s t : Store} {r : Runtime}
    (hmodules : ∀ m ∈ modules, m < s.modules.size)
    (h : (Runtime.start (nested depth) modules zone maxAttempts).finish i s = .ended (.ok r) j t)
    (hstateless : r.Stateless t) (earlier : List Runtime.Request) (request : Runtime.Request)
    (now : Int) (clock : Nat → Binary64) :
    request.respond (nested depth) r ((r.serveAll (nested depth) t earlier).timed now clock) =
      request.respond (nested depth) r (t.timed now clock) := by
  obtain ⟨-, -, hready⟩ := Runtime.ready_of_start hmodules h
  let L := hstateless.library
  have hserves : L.Serves r := fun m hm => ⟨.registered hm, (hready m hm).2⟩
  have hkept : L.Kept (r.serveAll (nested depth) t earlier) :=
    L.kept_serveAll hserves (.base L) earlier
  let T : Twins :=
    ⟨L.timed now clock, _, _, hkept.timed now clock, (Library.Kept.base L).timed now clock⟩
  exact T.respond_eq (T.runs_nested depth) hserves (.start T fun _ => rfl) request

/-- A constant that holds a plain value. -/
def Word.isPlainConstant (issued : Nat) : Word → Bool
  | .constant l v => l.id.all (· < issued) && v.isSerializable
  | _ => false

/-- A definition of constants. -/
def Word.definesConstants (issued : Nat) : Word → Bool
  | .definition l body => l.id.all (· < issued) && body.all fun e => e.1.isPlainConstant issued
  | _ => false

theorem WordLabel.issued_of_all {issued : Nat} {l : WordLabel}
    (h : l.id.all (· < issued) = true) : l.Issued issued :=
  fun id hid => of_decide_eq_true ((Option.all_eq_true _ _).mp h id hid)

theorem Word.stateless_of_isPlainConstant {issued : Nat} {w : Word}
    (h : w.isPlainConstant issued = true) : w.Stateless issued := by
  cases w with
  | constant l v =>
    obtain ⟨hl, hv⟩ := Bool.and_eq_true_iff.mp h
    rw [Stateless]
    exact ⟨WordLabel.issued_of_all hl, hv⟩
  | _ => cases h

theorem Word.stateless_of_definesConstants {issued : Nat} {w : Word}
    (h : w.definesConstants issued = true) : w.Stateless issued := by
  cases w with
  | definition l body =>
    obtain ⟨hl, hbody⟩ := Bool.and_eq_true_iff.mp h
    rw [Stateless]
    refine ⟨WordLabel.issued_of_all hl, ?_⟩
    clear h
    induction body with
    | nil => rw [BodyStateless]; trivial
    | cons e body ih =>
      obtain ⟨he, hrest⟩ := List.all_cons.symm.trans hbody |> Bool.and_eq_true_iff.mp
      rw [BodyStateless]
      exact ⟨stateless_of_isPlainConstant he, ih hrest⟩
  | _ => cases h

/-- The words of the core vocabulary that run source texts, or show the stack. -/
def interpreting : ModuleSpec := { name := coreName, directs := Core.directs }

/-- A module whose source defines a word, and one that can run source texts. -/
@[irreducible]
def Store.interpreting : Store :=
  (({ modules := #[.new "m" "" ": A 1 ;" true] } : Store).define Wordstack.interpreting).toOption.elim
    {} Prod.snd

theorem interpreting_uniform : interpreting.Uniform :=
  ⟨fun _ hs => absurd hs List.not_mem_nil, coreModule_uniform.directs⟩

theorem Store.exists_interpreting : ∃ x, Wordstack.interpreting.build 0 = .ok x ∧
    ∀ m, Store.interpreting.module m =
      if m = 1 then x else ({ modules := #[.new "m" "" ": A 1 ;" true] } : Store).module m := by
  have hbuild : ((Wordstack.interpreting.build 0).toOption.any fun _ => true) = true := by
    decide +kernel
  obtain ⟨x, hx, -⟩ := Except.exists_of_any hbuild
  refine ⟨x, hx, ?_⟩
  let s : Store := { modules := #[.new "m" "" ": A 1 ;" true] }
  have hdefine : Store.interpreting =
      (addModule { s with nextId := s.nextId + x.words.length } x).2 := by
    unfold Store.interpreting define
    rw [hx]
    rfl
  rw [hdefine]
  exact module_addModule x

theorem Store.children_interpreting (k : Nat) : (Store.interpreting.module k).children = [] := by
  obtain ⟨x, hbuild, hmodule⟩ := Store.exists_interpreting
  rw [hmodule]
  by_cases hk : k = 1
  · rw [if_pos hk]
    exact (ModuleSpec.build_new hbuild).2.1
  · rw [if_neg hk]
    obtain _ | k := k <;> rfl

/-- A runtime that runs source texts, and has a module whose source defines a word. -/
theorem responses_without_history_source :
    ∃ r j t, (Runtime.start (nested 2) [0, 1] (some "+00:00") none).finish .host .interpreting =
        .ended (.ok r) j t ∧
      ∀ (earlier : List Runtime.Request) (request : Runtime.Request) (now : Int)
        (clock : Nat → Binary64),
        request.respond (nested 2) r ((r.serveAll (nested 2) t earlier).timed now clock) =
          request.respond (nested 2) r (t.timed now clock) := by
  let x := Runtime.start (nested 2) [0, 1] (some "+00:00") none
  have hstart : ((x.settle .host .interpreting).1.toOption.any fun r =>
      r.registry.modules == [0, 1]) = true := by decide +kernel
  have hstore : let t := (x.settle .host .interpreting).2.2
      t.modules.size = 3 ∧ [0, 1].all (fun m => (t.module m).imports == []) = true ∧
        ((t.module 0).cells == []) = true ∧
        (t.module 1).words.length ≤ t.nextId ∧
        (t.module 0).words.all (Word.definesConstants t.nextId) = true := by decide +kernel
  have hsize : Store.interpreting.modules.size = 2 := by decide +kernel
  obtain ⟨r, hr, hmodules⟩ := Except.exists_of_any hstart
  have hended := Task.of_settle hr
  generalize (x.settle .host .interpreting).2.1 = j, (x.settle .host .interpreting).2.2 = t
    at hended hstore
  obtain ⟨ht, hnone, hcells, hissued, hwords⟩ := hstore
  have himports : ∀ k ∈ r.registry.modules, (t.module k).imports = [] := fun k hk =>
    beq_iff_eq.mp (List.all_eq_true.mp hnone k (beq_iff_eq.mp hmodules ▸ hk))
  have hblocks : ∀ k, ∀ c ∈ (Store.interpreting.module k).children, c.2 ≠ 1 := fun k c hc =>
    absurd (Store.children_interpreting k ▸ hc) List.not_mem_nil
  obtain ⟨y, hbuild, hmodule⟩ := Store.exists_interpreting
  have hready := (ModuleSpec.build_new hbuild).1
  have hcore : Store.interpreting.module 1 = y := by rw [hmodule, if_pos rfl]
  have hy : t.module 1 = y :=
    (Runtime.module_of_start (by rw [hsize]; decide) (by rw [hcore, hready]; rfl) hblocks
      hended).trans hcore
  refine ⟨r, j, t, hended, responses_without_history (by rw [hsize]; decide) hended fun m hm => ?_⟩
  have hmem := hm.mem_modules himports
  rw [beq_iff_eq.mp hmodules] at hmem
  obtain rfl | rfl := (List.mem_cons.mp hmem).imp_right List.mem_singleton.mp
  · exact ⟨by omega, beq_iff_eq.mp hcells, fun w hw =>
      Word.stateless_of_definesConstants (List.all_eq_true.mp hwords w hw)⟩
  · have hstateless := interpreting_uniform.stateless hbuild
    rw [hy] at hissued ⊢
    refine ⟨by omega, hstateless.cells, fun w hw => (hstateless.words w hw).mono ?_⟩
    exact Nat.le_trans (Nat.le_of_eq (Nat.zero_add _)) hissued

end Wordstack
