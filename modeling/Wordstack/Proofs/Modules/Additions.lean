import Wordstack.Proofs.Machine.Stores
import Wordstack.Proofs.Modules.Routes

/-!
# Additions hide nothing

What a name stands for may change when something is added to a module, but it does not cease to
stand for something.

- **Additions** (`Addition`, `Store.addAll`): words, memo words, variables, exports and imports.
- **Extended modules** (`Module.Extends`, `Extended`): everything is still there that was.
- **Routes** (`Route.extended`) lead on through extended modules.
- **The result** (`additions_hide_nothing`).
-/

namespace Wordstack

/-! ## Additions -/

/-- What can be added to a module. -/
inductive Addition where
  | word (w : Word)
  | memoWords (w : Word)
  /-- A variable with a value. -/
  | cell (name : String) (value : Val)
  | exports (names : List String)
  | importing (i : Import)

/-- The store after an addition to module `m`. -/
def Store.add (s : Store) (m : Nat) : Addition → Store
  | .word w => s.addWord m w
  | .memoWords w => s.addMemoWords m w
  | .cell name value => (s.variableCell m name value).2
  | .exports names => s.updateModule m fun x => x.addExports names
  | .importing i => s.updateModule m fun x => x.addImport i

/-- The store after additions in order, each to its module. -/
def Store.addAll (s : Store) (additions : List (Nat × Addition)) : Store :=
  additions.foldl (fun s a => s.add a.1 a.2) s

/-! ## Extended modules -/

/-- Everything that is in module `x` is in `y`, though words may be defined again. -/
structure Module.Extends (x y : Module) : Prop where
  words : ∀ {name}, (x.ownWord? name).isSome → (y.ownWord? name).isSome
  cells : ∀ {name}, (x.cell? name).isSome → (y.cell? name).isSome
  exports : ∀ {name}, x.isExported name = true → y.isExported name = true
  imports : x.imports ⊆ y.imports

namespace Module

variable {x y z : Module}

theorem Extends.refl (x : Module) : x.Extends x := ⟨id, id, id, List.Subset.refl _⟩

theorem Extends.trans (h : x.Extends y) (h' : y.Extends z) : x.Extends z :=
  ⟨h'.words ∘ h.words, h'.cells ∘ h.cells, h'.exports ∘ h.exports, List.Subset.trans h.imports h'.imports⟩

theorem extends_addWord (x : Module) (id : Nat) (w : Word) : x.Extends (x.addWord id w) := by
  refine ⟨fun {name} h => ?_, fun h => h, fun h => h, List.Subset.refl _⟩
  unfold ownWord? at h ⊢
  rw [List.find?_isSome] at h ⊢
  obtain ⟨v, hv, hname⟩ := h
  refine ⟨v, ?_, hname⟩
  rw [List.mem_reverse] at hv ⊢
  exact List.mem_append_left _ hv

theorem extends_addVariable (x : Module) (name : String) (cell : Nat) :
    x.Extends (x.addVariable name cell) := by
  refine ⟨fun h => h, fun {key} h => ?_, fun h => h, List.Subset.refl _⟩
  unfold cell? addVariable at *
  rw [List.lookup_append, Option.isSome_or, h, Bool.true_or]

theorem extends_addExports (x : Module) (names : List String) : x.Extends (x.addExports names) := by
  refine ⟨fun h => h, fun h => h, fun {name} h => ?_, List.Subset.refl _⟩
  unfold isExported addExports at *
  -- names are only ever put behind those that are there
  refine List.foldlRecOn (motive := fun acc : List String => acc.contains name = true) names _ h fun acc hacc n _ => ?_
  split
  · exact hacc
  · rw [List.contains_append, hacc, Bool.true_or]

theorem extends_addImport (x : Module) (i : Import) : x.Extends (x.addImport i) :=
  ⟨fun h => h, fun h => h, fun h => h, List.subset_append_left ..⟩

end Module

/-- Each module is there still, and has at most grown. -/
def Extended (modules modules' : Array Module) : Prop :=
  ∀ (i : Nat) (x : Module), modules[i]? = some x → ∃ y, modules'[i]? = some y ∧ x.Extends y

namespace Extended

variable {modules modules' modules'' : Array Module}

theorem refl (modules : Array Module) : Extended modules modules :=
  fun _ x hx => ⟨x, hx, .refl x⟩

theorem trans (h : Extended modules modules') (h' : Extended modules' modules'') :
    Extended modules modules'' := fun i x hx => by
  obtain ⟨y, hy, hxy⟩ := h i x hx
  obtain ⟨z, hz, hyz⟩ := h' i y hy
  exact ⟨z, hz, hxy.trans hyz⟩

theorem updateModule (s : Store) (m : Nat) {f : Module → Module}
    (hf : ∀ x : Module, x.Extends (f x)) :
    Extended s.modules (s.updateModule m f).modules := by
  intro i x hx
  show ∃ y, (s.modules.modify m f)[i]? = some y ∧ x.Extends y
  rw [Array.getElem?_modify]
  split
  · exact ⟨f x, by rw [hx]; rfl, hf x⟩
  · exact ⟨x, hx, .refl x⟩

theorem addWord (s : Store) (m : Nat) (w : Word) : Extended s.modules (s.addWord m w).modules :=
  updateModule { s with nextId := s.nextId + 1 } m fun x => x.extends_addWord _ w

theorem variableCell (s : Store) (m : Nat) (name : String) (value : Val) :
    Extended s.modules (s.variableCell m name value).2.modules := by
  unfold Store.variableCell
  split
  · exact refl _
  · exact updateModule (s.addCell value).2 m fun x => x.extends_addVariable name _

/-- Every addition leaves what is there. -/
theorem add (s : Store) (m : Nat) (a : Addition) : Extended s.modules (s.add m a).modules := by
  cases a with
  | word w => exact addWord s m w
  | memoWords w => exact ((addWord _ m _).trans (addWord _ m _)).trans (addWord _ m _)
  | cell name value => exact variableCell s m name value
  | exports names => exact updateModule s m fun x => x.extends_addExports names
  | importing i => exact updateModule s m fun x => x.extends_addImport i

theorem addAll (s : Store) (additions : List (Nat × Addition)) :
    Extended s.modules (s.addAll additions).modules := by
  induction additions generalizing s with
  | nil => exact refl _
  | cons a rest ih => exact (add s a.1 a.2).trans (ih _)

end Extended

/-! ## What is found -/

section Found

variable {modules modules' : Array Module} {i m : Nat} {name : String} {path : List (Nat × String)}
  {w : Word}

/-- A route leads on through modules that have grown. Its last module may have a later definition. -/
theorem Route.extended (h : Route modules i name path w) (he : Extended modules modules') :
    ∃ w', Route modules' i name path w' := by
  induction h with
  | here hx hexport hw =>
    obtain ⟨y, hy, hxy⟩ := he _ _ hx
    obtain ⟨w', hw'⟩ := Option.isSome_iff_exists.mp (hxy.words (Option.isSome_of_eq_some hw))
    exact ⟨w', .here hy (hxy.exports hexport) hw'⟩
  | through hx hexport himp hname _ ih =>
    obtain ⟨y, hy, hxy⟩ := he _ _ hx
    obtain ⟨w', hw'⟩ := ih
    exact ⟨w', .through hy (hxy.exports hexport) (hxy.imports himp) hname hw'⟩

theorem Found.extended (h : Found modules m name w) (he : Extended modules modules') :
    ∃ w', Found modules' m name w' := by
  cases h with
  | own hx hw =>
    obtain ⟨y, hy, hxy⟩ := he _ _ hx
    obtain ⟨w', hw'⟩ := Option.isSome_iff_exists.mp (hxy.words (Option.isSome_of_eq_some hw))
    exact ⟨w', .own hy hw'⟩
  | cell hx hc =>
    obtain ⟨y, hy, hxy⟩ := he _ _ hx
    obtain ⟨c, hc'⟩ := Option.isSome_iff_exists.mp (hxy.cells (Option.isSome_of_eq_some hc))
    exact ⟨_, .cell hy hc'⟩
  | imported h hnodup =>
    obtain ⟨x, imp, target, hx, himp, hname, hroute⟩ := h
    obtain ⟨y, hy, hxy⟩ := he _ _ hx
    obtain ⟨w', hroute'⟩ := hroute.extended he
    exact ⟨w', .imported ⟨y, imp, target, hy, hxy.imports himp, hname, hroute'⟩ hnodup⟩

theorem isSome_findIn?_extended (h : (findIn? modules m name).isSome)
    (he : Extended modules modules') : (findIn? modules' m name).isSome := by
  obtain ⟨w, hw⟩ := isSome_findIn?_iff.mp h
  exact isSome_findIn?_iff.mpr (hw.extended he)

end Found

/-- The word of a name is found in a scope if and only if it is found in one of the modules. -/
theorem Interp.isOk_findWord_iff {i : Interp} {s : Store} {name : String} {l : Option Location} :
    (i.findWord s name l).isOk = true ↔ ∃ m ∈ i.scope, (findIn? s.modules m name).isSome := by
  rw [← List.findSome?_isSome_iff]
  unfold findWord
  cases i.scope.findSome? fun m => findIn? s.modules m name with
  | some w => simp [Except.isOk, Except.toBool]
  | none => simp [Except.isOk, Except.toBool]

/-- Whatever is added to modules, a name under which a module finds something is one under which it
still does, and so for the modules in the scope of an interpreter. -/
theorem additions_hide_nothing (s : Store) (additions : List (Nat × Addition)) :
    (∀ m name, (findIn? s.modules m name).isSome →
        (findIn? (s.addAll additions).modules m name).isSome) ∧
      ∀ (i : Interp) (name : String) (l : Option Location), (i.findWord s name l).isOk = true →
        (i.findWord (s.addAll additions) name l).isOk = true := by
  have hfound : ∀ m name, (findIn? s.modules m name).isSome →
      (findIn? (s.addAll additions).modules m name).isSome :=
    fun m name h => isSome_findIn?_extended h (.addAll s additions)
  refine ⟨hfound, fun i name l h => ?_⟩
  obtain ⟨m, hm, hsome⟩ := Interp.isOk_findWord_iff.mp h
  exact Interp.isOk_findWord_iff.mpr ⟨m, hm, hfound m name hsome⟩

/-- More imports, exports and definitions in a ring of modules, along which a word is found. -/
theorem additions_hide_nothing_ring :
    let s : Store := { modules := ringModules }
    (findIn? s.modules 0 "l.W").isSome ∧
      (findIn? (s.addAll [(2, .importing ⟨1, "W"⟩), (0, .importing ⟨0, ""⟩), (1, .exports ["l.W"]),
        (2, .memoWords (.constant { name := "W" } .null))]).modules 0 "l.W").isSome :=
  have hfound : (findIn? ringModules 0 "l.W").isSome := Option.isSome_of_eq_some ringModules_found
  ⟨hfound, (additions_hide_nothing _ _).1 0 "l.W" hfound⟩

end Wordstack
