import Wordstack.Proofs.Modules.Loading
import Wordstack.Proofs.Runs.Duplicate

/-!
# What keeps a valid configuration from starting

- **Assembling** (`Runtime.exists_assemble`): modules that exist and have distinct names make a
  registry. The core vocabulary comes before them unless they bring their own.
- **Making the loader** (`Runtime.exists_loader`): a known time zone is enough.
- **Starting** (`Runtime.fault_of_start`): the only faults that are left are those of the modules'
  own sources (`Runtime.StartFails`).
- **The result** (`valid_configuration_fails_for_modules_only`).
-/

namespace Wordstack

/-! ## Assembling -/

theorem Registry.get?_eq_none_iff {r : Registry} {name : String} :
    r.get? name = none ↔ name ∉ r.names := by
  unfold get? names
  rw [List.lookup_eq_none_iff]
  constructor
  · intro h hmem
    obtain ⟨e, he, rfl⟩ := List.mem_map.mp hmem
    simpa using h e he
  · intro h e he
    have hne : name ≠ e.1 := fun heq => h (heq ▸ List.mem_map_of_mem he)
    simpa using hne

theorem Registry.register_of_not_mem {r : Registry} {name : String} (m : Nat)
    (hopen : r.frozen = false) (hname : name ∉ r.names) :
    r.register name m = .ok { r with entries := r.entries ++ [(name, m)] } := by
  unfold register
  simp [hopen, Registry.get?_eq_none_iff.mpr hname]

/-- The core vocabulary can be declared after any modules, and is ready. -/
theorem Store.exists_define_core (s : Store) :
    ∃ base, s.define coreModule = .ok (s.modules.size, base) ∧ s.Precedes base ∧
      (base.module s.modules.size).name = coreName ∧
      (base.module s.modules.size).isReady = true := by
  obtain ⟨x, hzero, -⟩ := exists_core
  cases hbuild : coreModule.build s.nextId with
  | error f =>
    rw [(coreModule.build_eq_error_iff _ 0).mp hbuild] at hzero
    cases hzero
  | ok y =>
    let base := (addModule { s with nextId := s.nextId + y.words.length } y).2
    have hmodule : ∀ k, base.module k = if k = s.modules.size then y else s.module k :=
      module_addModule y
    have hnew : base.module s.modules.size = y := by rw [hmodule, if_pos rfl]
    refine ⟨base, define_of_build hbuild, ⟨?_, ?_⟩, ?_, ?_⟩
    · simp [base, addModule]
    · intro k hk
      rw [hmodule, if_neg (Nat.ne_of_lt hk)]
    · rw [hnew, ModuleSpec.name_of_build hbuild]
      rfl
    · rw [hnew, (ModuleSpec.build_new hbuild).1]
      rfl

namespace Runtime

variable {s t : Store} {ms : List Nat}

/-- Modules whose names are distinct, and not taken yet, are registered. -/
theorem exists_registerAll {r : Registry} (hopen : r.frozen = false)
    (hnames : (r.names ++ ms.map fun m => (s.module m).name).Nodup) :
    ∃ r', registerAll s r ms = .ok r' := by
  induction ms generalizing r with
  | nil => exact ⟨r, rfl⟩
  | cons m ms ih =>
    have hfresh : (s.module m).name ∉ r.names := by
      intro hmem
      rw [List.map_cons] at hnames
      exact (List.nodup_append.mp hnames).2.2 _ hmem _ List.mem_cons_self rfl
    unfold registerAll
    rw [Registry.register_of_not_mem m hopen hfresh]
    refine ih (r := { r with entries := r.entries ++ [((s.module m).name, m)] }) hopen ?_
    simpa [Registry.names] using hnames

/-- Modules that exist and have distinct names make a registry. The only other module that may be in
it is the core vocabulary, which is ready. -/
theorem exists_assemble (hexist : ∀ m ∈ ms, m < s.modules.size)
    (hnames : (ms.map fun m => (s.module m).name).Nodup) :
    ∃ registry base, assemble s ms = .ok (registry, base) ∧ s.Precedes base ∧
      ∀ m ∈ registry.modules, m ∈ ms ∨ (base.module m).isReady = true := by
  unfold assemble
  by_cases hcore : (ms.any fun m => (s.module m).name == coreName) = true
  · obtain ⟨registry, hregister⟩ : ∃ r', registerAll s {} ms = .ok r' :=
      exists_registerAll rfl hnames
    refine ⟨registry, s, ?_, .of_modules_eq rfl, ?_⟩
    · rw [if_pos hcore, hregister]
      rfl
    · intro m hm
      rw [registerAll_modules hregister] at hm
      exact .inl hm
  · obtain ⟨base, hdefine, hbase, hname, hready⟩ := s.exists_define_core
    have hdistinct : ((s.modules.size :: ms).map fun m => (base.module m).name).Nodup := by
      have hsame : (ms.map fun m => (base.module m).name) = ms.map fun m => (s.module m).name :=
        List.map_congr_left fun m hm => by rw [hbase.module (hexist m hm)]
      rw [List.map_cons, hsame, hname]
      refine List.nodup_cons.mpr ⟨fun hmem => hcore ?_, hnames⟩
      obtain ⟨m, hm, heq⟩ := List.mem_map.mp hmem
      exact List.any_eq_true.mpr ⟨m, hm, beq_iff_eq.mpr heq⟩
    obtain ⟨registry, hregister⟩ : ∃ r', registerAll base {} (s.modules.size :: ms) = .ok r' :=
      exists_registerAll rfl hdistinct
    refine ⟨registry, base, ?_, hbase, ?_⟩
    · rw [if_neg hcore, hdefine]
      show (do return (← registerAll base {} (s.modules.size :: ms), base)) = _
      rw [hregister]
      rfl
    · intro m hm
      rw [registerAll_modules hregister] at hm
      obtain rfl | hm := List.mem_cons.mp hm
      · exact .inr hready
      · exact .inl hm

/-- An interpreter over a registry with a core vocabulary can be made if the time zone is known. -/
theorem exists_loader {registry : Registry} {zone : String} (hzone : Calendar.isZone zone = true)
    (hcore : (registry.get? coreName).isSome = true) :
    ∃ loader t, Interp.standard s { registry, zone := some zone } [] = .ok (loader, t) := by
  obtain ⟨core, hcore⟩ := Option.isSome_iff_exists.mp hcore
  unfold Interp.standard Interp.bare
  simp only [Option.getD_some, hzone, if_true, bind, Except.bind, Interp.withCore, hcore, pure,
    Except.pure]
  exact ⟨_, _, rfl⟩

/-! ## Starting -/

/-- The fault of a module whose source fails while a runtime over modules starts, with the modules
before it initialized. -/
inductive StartFails (e : Nested) (s : Store) (ms : List Nat) (zone : Option String) : Fault → Prop
  | source {registry : Registry} {base u v w : Store} {loader k l : Interp} {m : Nat}
    {before after : List Nat} {cause : Fault}
    (hassemble : assemble s ms = .ok (registry, base))
    (hloader : Interp.standard base { registry, zone } [] = .ok (loader, u))
    (hmodules : registry.modules = before ++ m :: after) (hm : m ∈ ms)
    (hbefore : (initializeAll e before).finish loader u = .ended (.ok ()) k v)
    (hsource : (e.run (s.module m).source (s.module m).origin).finish (k.enterModule m) v =
      .ended (.fault cause) l w) :
    StartFails e s ms zone (.moduleFailed (s.module m).name (some cause))

/-- The first module whose initialization ends with a fault. -/
theorem exists_of_initializeAll_fault {e : Nested} {i j : Interp} {f : Fault}
    (h : (initializeAll e ms).finish i s = .ended (.fault f) j t) :
    ∃ before m after k v, ms = before ++ m :: after ∧
      (initializeAll e before).finish i s = .ended (.ok ()) k v ∧
      (initializeModule e m).finish k v = .ended (.fault f) j t := by
  induction ms generalizing i s with
  | nil => cases h
  | cons m ms ih =>
    rw [initializeAll, Task.finish_bind] at h
    rcases Outcome.of_bind h Result.fault_ne_exhausted with ⟨_, k, u, hm, hrest⟩ | ⟨g, hm, hg⟩
    · obtain ⟨before, n, after, l, v, rfl, hbefore, hn⟩ := ih hrest
      refine ⟨m :: before, n, after, l, v, rfl, ?_, hn⟩
      rw [initializeAll, Task.finish_bind, hm]
      exact hbefore
    · cases hg
      exact ⟨[], m, ms, i, s, rfl, rfl, hm⟩

/-- Log lines cannot fail. -/
theorem finish_warnAll (problems : List String) (i : Interp) (s : Store) :
    ∃ t, (warnAll problems).finish i s = .ended (.ok ()) i t := by
  induction problems generalizing s with
  | nil => exact ⟨s, rfl⟩
  | cons problem rest ih =>
    obtain ⟨t, ht⟩ := ih (s.log .warn logScope problem)
    refine ⟨t, ?_⟩
    rw [warnAll, Task.finish_bind]
    exact ht

/-- Once there are a registry and an interpreter, only initialization can end with a fault. -/
theorem initializeAll_of_start_fault {e : Nested} {zone : Option String}
    {maxAttempts : Option Binary64} {registry : Registry} {base u : Store} {loader i j : Interp}
    {f : Fault} (hassemble : assemble s ms = .ok (registry, base))
    (hloader : Interp.standard base { registry, zone } [] = .ok (loader, u))
    (h : (start e ms zone maxAttempts).finish i s = .ended (.fault f) j t) :
    ∃ k, (initializeAll e registry.modules).finish loader u = .ended (.fault f) k t := by
  have hassemble' : (Task.ofStore? fun s => assemble s ms).finish i s =
      .ended (.ok registry) i base := by
    simp [Task.finish, Task.ofStore?, hassemble, Step.finish]
  have hloader' : (Task.ofStore? fun s => Interp.standard s { registry, zone } []).finish i base =
      .ended (.ok loader) i u := by
    simp [Task.finish, Task.ofStore?, hloader, Step.finish]
  unfold start at h
  rw [Task.finish_bind, hassemble', Outcome.bind_ok, Task.finish_bind, hloader', Outcome.bind_ok,
    Task.finish_bind] at h
  rcases Outcome.of_bind h Result.fault_ne_exhausted with ⟨⟨_, k⟩, l, v, -, h⟩ | ⟨g, hall, hg⟩
  · rw [Task.finish_bind, Task.finish_view, Outcome.bind_ok, Task.finish_bind] at h
    obtain ⟨w, hwarn⟩ := finish_warnAll (registry.problems v.modules) l v
    rw [hwarn] at h
    cases h
  · cases hg
    exact Task.of_onOther_fault hall

/-- A runtime over modules with distinct names and a known time zone fails to start only if the
source of one of the modules fails. -/
theorem fault_of_start {depth : Nat} {zone : String} {maxAttempts : Option Binary64}
    {i j : Interp} {f : Fault} (hexist : ∀ m ∈ ms, m < s.modules.size)
    (hnames : (ms.map fun m => (s.module m).name).Nodup) (hzone : Calendar.isZone zone = true)
    (h : (start (nested depth) ms (some zone) maxAttempts).finish i s = .ended (.fault f) j t) :
    StartFails (nested depth) s ms (some zone) f := by
  obtain ⟨registry, base, hassemble, hbase, hready⟩ := exists_assemble hexist hnames
  obtain ⟨loader, u, hloader⟩ : ∃ loader u,
      Interp.standard base { registry, zone := some zone } [] = .ok (loader, u) :=
    exists_loader hzone (core_of_assemble hassemble)
  obtain ⟨l, hinit⟩ := initializeAll_of_start_fault hassemble hloader h
  obtain ⟨before, m, after, k, v, hmodules, hbefore, hfault⟩ := exists_of_initializeAll_fault hinit
  have hmade := Territory.made_of_standard (Territory.everywhere base).holds_base
    ⟨fun _ _ => .inl ⟨⟩, fun handler _ => handler.avoids_of_none fun _ => id⟩ (fun _ _ => .inl ⟨⟩)
    hloader
  have hv : (Territory.everywhere base).Holds v :=
    hmade.holds.trans (holds_initializeAll hmade.within.initializing hbefore)
  have hunready : (v.module m).isReady = false := by
    by_contra hskip
    rw [finish_initializeModule_skipped (by simp [hskip])] at hfault
    cases hfault
  have hm : m ∈ ms := by
    refine (hready m (by simp [hmodules])).resolve_right fun hm => ?_
    rw [hv.ready hm] at hunready
    cases hunready
  have hfixed : (v.module m).fixed = (s.module m).fixed := by
    have hlt := hexist m hm
    rw [hv.fixed (Nat.lt_of_lt_of_le hlt hbase.size), ← hbase.module hlt]
    rfl
  obtain ⟨hname, hsource⟩ := Prod.mk.inj hfixed
  obtain ⟨cause, l', hrun, rfl, -⟩ := finish_initializeModule_fault hfault
  rw [Module.origin, hname, hsource] at hrun
  rw [hname]
  exact .source hassemble hloader hmodules hm hbefore hrun

end Runtime

/-- Whatever the factories do, a valid configuration fails to load only if the module of a required
entry cannot be built. Otherwise there is one module for each entry whose module can be built, under
the name of the entry and under no other module's name, and a runtime over them fails to start only
if the source of one of them fails. -/
theorem valid_configuration_fails_for_modules_only (fs : Factories) {c : Config}
    (hc : c.problems = []) {s t : Store} {outcome : Except Fault (List Nat)}
    (h : loadModules fs c.modules s = (outcome, t)) :
    (∃ name message cause, outcome = .error (.moduleLoad name message cause) ∧
      RequiredFails fs c.modules (.moduleLoad name message cause)) ∨
    ∃ ms, outcome = .ok ms ∧ Loaded fs t c.modules ms ∧
      (ms.map fun m => (t.module m).name).Nodup ∧
      ∀ depth i j u f,
        (Runtime.start (nested depth) ms (some c.interpreter.zone)
          (some c.interpreter.maxAttempts)).finish i t = .ended (.fault f) j u →
        Runtime.StartFails (nested depth) t ms (some c.interpreter.zone) f := by
  obtain ⟨hnames, hzone⟩ := Config.nodup_of_problems hc
  have hcases := loadModules_cases fs c.modules s
  rw [h] at hcases
  rcases hcases with ⟨f, rfl, hfails⟩ | ⟨ms, rfl, hloaded⟩
  · left
    obtain ⟨entry, -, -, g, -, hf⟩ := hfails.exists_mem
    obtain ⟨name, message, cause, hg⟩ := g.exists_ofLoading entry.name
    obtain rfl : f = .moduleLoad name message cause := hf.trans hg
    exact ⟨name, message, cause, rfl, hfails⟩
  · right
    have hdistinct := hnames.sublist hloaded.names
    refine ⟨ms, rfl, hloaded, hdistinct, ?_⟩
    intro depth i j u f hstart
    exact Runtime.fault_of_start hloaded.lt_size hdistinct hzone hstart

/-- Factories of an empty core vocabulary and of a module whose source names no word. -/
def Factories.ofUnknownWord : Factories :=
  ⟨[("core", fun _ => .ok { name := coreName }),
    ("broken", fun _ => .ok { name := "m", source := "MISSING" })]⟩

/-- A valid configuration of the modules of those factories, and of one that nobody builds. -/
def Config.ofUnknownWord : Config where
  interpreter := { zone := "+00:00" }
  modules := [⟨"core", "core", false, "", none⟩, ⟨"other", "missing", true, "", none⟩,
    ⟨"m", "broken", false, "", none⟩]

/-- The modules are loaded, and then the one with the unknown word keeps the runtime from
starting. -/
theorem valid_configuration_fails_for_modules_only_unknown_word :
    let fs := Factories.ofUnknownWord
    let c := Config.ofUnknownWord
    c.problems = [] ∧ ∃ t j u f, loadModules fs c.modules {} = (.ok [0, 1], t) ∧
      (Runtime.start (nested 2) [0, 1] (some c.interpreter.zone)
        (some c.interpreter.maxAttempts)).finish .host t = .ended (.fault f) j u ∧
      Runtime.StartFails (nested 2) t [0, 1] (some c.interpreter.zone) f := by
  intro fs c
  have hc : c.problems = [] := by decide +kernel
  let t := (loadModules fs c.modules {}).2
  have hload : (loadModules fs c.modules {}).1.toOption = some [0, 1] := by decide +kernel
  have hstart : ((Runtime.start (nested 2) [0, 1] (some c.interpreter.zone)
      (some c.interpreter.maxAttempts)).finish .host t).failsWith (fun _ => true) = true := by
    decide +kernel
  have hloaded : loadModules fs c.modules {} = (.ok [0, 1], t) := by
    cases hp : loadModules fs c.modules {} with
    | mk outcome u =>
      rw [hp] at hload
      cases outcome with
      | error f => cases hload
      | ok ms =>
        obtain rfl := Option.some.inj hload
        exact congrArg _ (congrArg Prod.snd hp).symm
  obtain ⟨f, j, u, hfault, -⟩ := Outcome.exists_of_failsWith hstart
  refine ⟨hc, t, j, u, f, hloaded, hfault, ?_⟩
  rcases valid_configuration_fails_for_modules_only fs hc hloaded with ⟨_, _, _, he, -⟩ | hms
  · cases he
  · obtain ⟨ms, he, -, -, hfails⟩ := hms
    obtain rfl := Except.ok.inj he
    exact hfails 2 .host j u f hfault

end Wordstack
