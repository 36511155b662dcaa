import Wordstack.Config.Validate
import Wordstack.Module.Load
import Wordstack.Proofs.Bridge.Resolution

/-!
# What loading leaves

- **Valid configurations** (`Config.nodup_of_problems`): the names of their modules are distinct.
- **Entries that fail** (`Factories.Fails`): the factory is missing, raises a fault, or builds a
  module of another name. Neither the store nor the other entries have a say in it
  (`Factories.build_eq_error_iff`).
- **Loading** (`Loaded`): one module for each entry that does not fail, in order. An entry that
  fails must be optional, or loading ends with a fault of loading (`loadModules_cases`).
-/

namespace Wordstack

/-! ## Valid configurations -/

namespace Config

theorem names_of_entryProblems {i : Nat} {seen : List String} {entries : List ModuleEntry}
    (h : entryProblems i seen entries = []) :
    (entries.map ModuleEntry.name).Nodup ∧ ∀ entry ∈ entries, entry.name ∉ seen := by
  induction entries generalizing i seen with
  | nil => simp
  | cons entry rest ih =>
    simp only [entryProblems, List.append_eq_nil_iff] at h
    obtain ⟨⟨⟨hname, -⟩, hseen⟩, hrest⟩ := h
    have hne : entry.name.isEmpty = false := by simpa using hname
    have hfresh : entry.name ∉ seen := by
      intro hmem
      simp [hne, hmem] at hseen
    obtain ⟨hnodup, hlater⟩ := ih hrest
    constructor
    · rw [List.map_cons, List.nodup_cons]
      refine ⟨fun hmem => ?_, hnodup⟩
      obtain ⟨other, hother, hsame⟩ := List.mem_map.mp hmem
      apply hlater other hother
      simp [hsame]
    · intro other hother
      obtain rfl | hother := List.mem_cons.mp hother
      · exact hfresh
      · intro hmem
        exact hlater other hother (List.mem_cons_of_mem _ hmem)

/-- The modules of a valid configuration have distinct names, and its time zone is known. -/
theorem nodup_of_problems {c : Config} (h : c.problems = []) :
    (c.modules.map ModuleEntry.name).Nodup ∧ Calendar.isZone c.interpreter.zone = true := by
  simp only [problems, List.append_eq_nil_iff] at h
  obtain ⟨⟨⟨-, hzone⟩, -⟩, hentries⟩ := h
  refine ⟨(names_of_entryProblems hentries).1, ?_⟩
  by_contra hunknown
  simp [hunknown] at hzone

end Config

/-! ## Building -/

/-- Stores of which the second one has the modules of the first one, and maybe more. -/
structure Store.Precedes (s t : Store) : Prop where
  size : s.modules.size ≤ t.modules.size
  module : ∀ {k}, k < s.modules.size → t.module k = s.module k

namespace Store.Precedes

variable {s t u : Store}

theorem of_modules_eq (h : t.modules = s.modules) : s.Precedes t := by
  refine ⟨Nat.le_of_eq (by rw [h]), fun _ => ?_⟩
  rw [Store.module, h]
  rfl

theorem trans (h : s.Precedes t) (h' : t.Precedes u) : s.Precedes u where
  size := Nat.le_trans h.size h'.size
  module hk := (h'.module (Nat.lt_of_lt_of_le hk h.size)).trans (h.module hk)

theorem log (s : Store) (level : LogLevel) (scope message : String) :
    s.Precedes (s.log level scope message) :=
  of_modules_eq (Runtime.modules_log s level scope message).1

end Store.Precedes

/-- Whether a declaration can be built does not depend on the numbers of its words. -/
theorem ModuleSpec.build_eq_error_iff {spec : ModuleSpec} {f : Fault} (n k : Nat) :
    spec.build n = .error f ↔ spec.build k = .error f := by
  unfold build
  cases spec.words with
  | error g => rfl
  | ok words =>
    simp only [bind, Except.bind]
    split <;> simp [pure, Except.pure]

namespace Factories

variable {fs : Factories} {entry : ModuleEntry} {s t : Store} {m : Nat} {f : Fault}

/-- Entries whose module cannot be built, with the fault of building it. -/
inductive Fails (fs : Factories) (entry : ModuleEntry) : Fault → Prop
  | missing (h : fs.get? entry.path = none) :
    Fails fs entry (.moduleLoad entry.name
      ("no module factory for import path '" ++ entry.path ++ "'") none)
  | raises {factory : ModuleFactory} {f : Fault} (h : fs.get? entry.path = some factory)
    (hf : (do (← factory entry).build 0) = .error f) : Fails fs entry f
  | misnamed {factory : ModuleFactory} {spec : ModuleSpec} {x : Module}
    (h : fs.get? entry.path = some factory) (hspec : factory entry = .ok spec)
    (hbuild : spec.build 0 = .ok x) (hname : spec.name ≠ entry.name) :
    Fails fs entry (.moduleLoad entry.name
      ("factory '" ++ entry.path ++ "' built module '" ++ spec.name ++ "'") none)

/-- Building with a factory that is there. -/
theorem build_of_some {factory : ModuleFactory} (h : fs.get? entry.path = some factory) :
    fs.build entry s = (do
      let spec ← factory entry
      let (m, t) ← s.define spec
      if spec.name = entry.name then .ok (m, t.updateModule m (configured entry))
      else
        .error (.moduleLoad entry.name
          ("factory '" ++ entry.path ++ "' built module '" ++ spec.name ++ "'") none)) := by
  unfold build
  rw [h]

theorem Fails.of_build (h : fs.build entry s = .error f) : fs.Fails entry f := by
  cases hget : fs.get? entry.path with
  | none =>
    unfold build at h
    rw [hget] at h
    cases h
    exact .missing hget
  | some factory =>
    rw [build_of_some hget] at h
    cases hspec : factory entry with
    | error g =>
      rw [hspec] at h
      cases h
      exact .raises hget (by rw [hspec]; rfl)
    | ok spec =>
      simp only [hspec, bind, Except.bind, Store.define] at h
      cases hbuild : spec.build s.nextId with
      | error g =>
        rw [hbuild] at h
        cases h
        have hzero : spec.build 0 = .error f := (spec.build_eq_error_iff _ _).mp hbuild
        exact .raises hget (by rw [hspec]; exact hzero)
      | ok x =>
        simp only [hbuild, pure, Except.pure] at h
        split at h
        · cases h
        rename_i hname
        cases h
        cases hzero : spec.build 0 with
        | ok y => exact .misnamed hget hspec hzero hname
        | error g => simp [(spec.build_eq_error_iff _ s.nextId).mp hzero] at hbuild

theorem Fails.build (h : fs.Fails entry f) : fs.build entry s = .error f := by
  cases h with
  | missing hget =>
    unfold Factories.build
    rw [hget]
  | @raises factory _ hget hf =>
    rw [build_of_some hget]
    cases hspec : factory entry with
    | error g =>
      rw [hspec] at hf
      cases hf
      rfl
    | ok spec =>
      rw [hspec] at hf
      have hbuild : spec.build s.nextId = .error f := (spec.build_eq_error_iff 0 _).mp hf
      simp [bind, Except.bind, Store.define, hbuild]
  | @misnamed factory spec x hget hspec hzero hname =>
    rw [build_of_some hget]
    cases hbuild : spec.build s.nextId with
    | error g => simp [(spec.build_eq_error_iff _ 0).mp hbuild] at hzero
    | ok y => simp [hspec, bind, Except.bind, Store.define, hbuild, hname, pure, Except.pure]

/-- Building a module fails in the same way whatever the store holds. -/
theorem build_eq_error_iff : fs.build entry s = .error f ↔ fs.Fails entry f :=
  ⟨.of_build, Fails.build⟩

/-- A module that was built stands behind the others and has the name of its entry. -/
theorem of_build (h : fs.build entry s = .ok (m, t)) :
    s.Precedes t ∧ m < t.modules.size ∧ (t.module m).name = entry.name := by
  unfold build at h
  split at h
  · cases h
  rename_i factory _
  obtain ⟨spec, -, h⟩ := Except.of_bind_ok h
  obtain ⟨⟨k, v⟩, hdefine, h⟩ := Except.of_bind_ok h
  dsimp only at h
  split at h
  case isFalse => cases h
  rename_i hname
  obtain ⟨rfl, rfl⟩ := Prod.mk.inj (Except.ok.inj h)
  obtain ⟨x, hbuild, rfl, rfl⟩ := Store.of_define hdefine
  have hsize : (s.modules.push x).size = s.modules.size + 1 := Array.size_push ..
  let u := (Store.addModule { s with nextId := s.nextId + x.words.length } x).2
  have hsize' : (u.updateModule s.modules.size (configured entry)).modules.size =
      s.modules.size + 1 := by
    rw [Store.updateModule, Array.size_modify]
    exact hsize
  change s.Precedes (u.updateModule s.modules.size (configured entry)) ∧
    s.modules.size < (u.updateModule s.modules.size (configured entry)).modules.size ∧ _
  refine ⟨⟨by omega, fun {k} hk => ?_⟩, by omega, ?_⟩
  · have hne : k ≠ s.modules.size := by omega
    rw [Store.module_updateModule, if_neg fun he => hne he.1, Store.module_addModule, if_neg hne]
    rfl
  · rw [Store.module_updateModule, if_pos ⟨rfl, by simp [Store.addModule]⟩,
      Store.module_addModule, if_pos rfl]
    exact (ModuleSpec.name_of_build hbuild).trans hname

end Factories

/-! ## Loading -/

/-- Whatever loading ends with is a fault of loading. -/
theorem Fault.exists_ofLoading (name : String) (f : Fault) :
    ∃ about message cause, f.ofLoading name = .moduleLoad about message cause := by
  cases f <;> exact ⟨_, _, _, rfl⟩

/-- Modules in a store that were loaded for entries, in order: none for those that fail, and only
optional ones do. -/
inductive Loaded (fs : Factories) (t : Store) : List ModuleEntry → List Nat → Prop
  | nil : Loaded fs t [] []
  | loaded {entry : ModuleEntry} {rest : List ModuleEntry} {m : Nat} {ms : List Nat}
    (hentry : ∀ f, ¬ fs.Fails entry f) (hexists : m < t.modules.size)
    (hname : (t.module m).name = entry.name) (hrest : Loaded fs t rest ms) :
    Loaded fs t (entry :: rest) (m :: ms)
  | skipped {entry : ModuleEntry} {rest : List ModuleEntry} {ms : List Nat} {f : Fault}
    (hentry : fs.Fails entry f) (hoptional : entry.optional = true) (hrest : Loaded fs t rest ms) :
    Loaded fs t (entry :: rest) ms

namespace Loaded

variable {fs : Factories} {t : Store} {entries : List ModuleEntry} {ms : List Nat}

/-- The modules have the names of their entries, in the order of these. -/
theorem names (h : Loaded fs t entries ms) :
    (ms.map fun m => (t.module m).name).Sublist (entries.map ModuleEntry.name) := by
  induction h with
  | nil => exact .slnil
  | loaded _ _ hname _ ih =>
    rw [List.map_cons, List.map_cons, hname]
    exact ih.cons_cons _
  | skipped _ _ _ ih => exact ih.cons _

theorem lt_size (h : Loaded fs t entries ms) : ∀ m ∈ ms, m < t.modules.size := by
  induction h with
  | nil => simp
  | loaded _ hexists _ _ ih => exact List.forall_mem_cons.mpr ⟨hexists, ih⟩
  | skipped _ _ _ ih => exact ih

end Loaded

section Loading

variable {fs : Factories} {entries : List ModuleEntry} {s : Store} {loaded : List Nat}

/-- Entries of which a required one fails: the first that does. -/
inductive RequiredFails (fs : Factories) : List ModuleEntry → Fault → Prop
  | here {entry : ModuleEntry} {rest : List ModuleEntry} {f : Fault} (hentry : fs.Fails entry f)
    (hrequired : entry.optional = false) : RequiredFails fs (entry :: rest) (f.ofLoading entry.name)
  | later {entry : ModuleEntry} {rest : List ModuleEntry} {f : Fault}
    (hentry : ∀ g, fs.Fails entry g → entry.optional = true) (hrest : RequiredFails fs rest f) :
    RequiredFails fs (entry :: rest) f

theorem RequiredFails.exists_mem {f : Fault} (h : RequiredFails fs entries f) :
    ∃ entry ∈ entries, entry.optional = false ∧
      ∃ g, fs.Fails entry g ∧ f = g.ofLoading entry.name := by
  induction h with
  | here hentry hrequired => exact ⟨_, List.mem_cons_self, hrequired, _, hentry, rfl⟩
  | later _ _ ih =>
    obtain ⟨entry, hmem, hfails⟩ := ih
    exact ⟨entry, List.mem_cons_of_mem _ hmem, hfails⟩

/-- Modules that exist stay as they are while others are loaded. -/
theorem precedes_loadFrom : s.Precedes (loadFrom fs s loaded entries).2 := by
  induction entries generalizing s loaded with
  | nil => exact .log ..
  | cons entry rest ih =>
    rw [loadFrom]
    have hlog := Store.Precedes.log s .info loadScope
      ("Loading module '" ++ entry.name ++ "' from " ++ entry.path)
    split
    · rename_i m t hbuild
      have ht := (Factories.of_build hbuild).1
      exact (hlog.trans ht).trans ((Store.Precedes.log ..).trans ih)
    · split
      · exact hlog.trans ((Store.Precedes.log ..).trans ih)
      · exact hlog

/-- Loading goes on until a required entry fails, and passes over optional ones that do. -/
theorem loadFrom_cases :
    (∃ f, (loadFrom fs s loaded entries).1 = .error f ∧ RequiredFails fs entries f) ∨
      ∃ ms, (loadFrom fs s loaded entries).1 = .ok (loaded ++ ms) ∧
        Loaded fs (loadFrom fs s loaded entries).2 entries ms := by
  induction entries generalizing s loaded with
  | nil => exact .inr ⟨[], by simp [loadFrom], .nil⟩
  | cons entry rest ih =>
    rw [loadFrom]
    split
    · rename_i m t hbuild
      have hentry : ∀ g, ¬ fs.Fails entry g := by
        intro g hg
        rw [Factories.build_eq_error_iff.mpr hg] at hbuild
        cases hbuild
      obtain ⟨-, hm, hname⟩ := Factories.of_build hbuild
      let s' := t.log .info loadScope ("Loaded '" ++ entry.name ++ "'" ++
        if entry.description.isEmpty then "" else ": " ++ entry.description)
      have hlog : t.Precedes s' := .log ..
      have hlater : t.Precedes (loadFrom fs s' (loaded ++ [m]) rest).2 :=
        hlog.trans precedes_loadFrom
      rcases @ih s' (loaded ++ [m]) with ⟨f, hf, hrest⟩ | ⟨ms, hms, hrest⟩
      · exact .inl ⟨f, hf, .later (fun g hg => absurd hg (hentry g)) hrest⟩
      · refine .inr ⟨m :: ms, ?_, ?_⟩
        · rw [hms]
          simp
        · refine .loaded hentry (Nat.lt_of_lt_of_le hm hlater.size) ?_ hrest
          rw [hlater.module hm, hname]
    · rename_i f hbuild
      have hentry : fs.Fails entry f := Factories.build_eq_error_iff.mp hbuild
      split
      · rename_i hoptional
        rcases ih with ⟨f, hf, hrest⟩ | ⟨ms, hms, hrest⟩
        · exact .inl ⟨f, hf, .later (fun _ _ => hoptional) hrest⟩
        · exact .inr ⟨ms, hms, .skipped hentry hoptional hrest⟩
      · rename_i hrequired
        exact .inl ⟨_, rfl, .here hentry (by simpa using hrequired)⟩

/-- Loading ends with the fault of the first required entry that fails, or has loaded a module for
each entry that does not fail. -/
theorem loadModules_cases (fs : Factories) (entries : List ModuleEntry) (s : Store) :
    (∃ f, (loadModules fs entries s).1 = .error f ∧ RequiredFails fs entries f) ∨
      ∃ ms, (loadModules fs entries s).1 = .ok ms ∧
        Loaded fs (loadModules fs entries s).2 entries ms := by
  have h : (∃ f, (loadFrom fs s [] entries).1 = .error f ∧ RequiredFails fs entries f) ∨
      ∃ ms, (loadFrom fs s [] entries).1 = .ok ([] ++ ms) ∧
        Loaded fs (loadFrom fs s [] entries).2 entries ms := loadFrom_cases
  simpa [loadModules] using h

end Loading

end Wordstack
