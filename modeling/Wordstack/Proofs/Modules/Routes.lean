import Mathlib.Data.List.Nodup
import Wordstack.Machine.Interp

/-!
# Routes of imports

A name that a module does not define is looked for along its imports: each module on the way exports
the name that is wanted of it, and the last one defines it. A qualified import wants of its module
what is left of the name without the qualifier.

- **Qualified names** (`Import.shown`): what an import calls the words of its module.
- **Routes** (`Route`, `ImportRoute`): the modules on the way with the names that are wanted of them.
  A route can be cut where it comes back to a module under the same name (`Route.simple`).
- **What is found** (`imported_words_are_exported`): a word that is not the module's own has come
  along a route that enters no module twice. What modules do not export is of no account.
- **When something is found** (`found_iff_one_name_route`): if and only if there is a route on which
  no module is entered under two names. There may be routes of other kinds only
  (`reachable_word_may_be_lost`).
-/

namespace Wordstack

/-! ## Qualified names -/

/-- The name under which an import shows what its module calls `target`. -/
def Import.shown (i : Import) (target : String) : String :=
  if i.qualifier.isEmpty then target else i.qualifier ++ "." ++ target

theorem Text.startsWith_iff {s start : String} :
    startsWith s start = true ↔ ∃ rest, s = start ++ rest := by
  rw [startsWith, List.isPrefixOf_iff_prefix]
  constructor
  · rintro ⟨rest, h⟩
    exact ⟨String.ofList rest, String.toList_inj.mp (by simp [← h])⟩
  · rintro ⟨rest, rfl⟩
    exact ⟨rest.toList, by simp⟩

theorem Text.drop_append (start rest : String) : drop (start ++ rest) start.length = rest := by
  simp [drop, ← String.length_toList]

theorem Import.target?_eq_some_iff {i : Import} {name target : String} :
    i.target? name = some target ↔ name = i.shown target := by
  unfold target? shown
  split
  · exact Option.some_inj
  have hlength : (i.qualifier ++ ".").length = i.qualifier.length + 1 := String.length_append ..
  split
  · rename_i h
    obtain ⟨rest, rfl⟩ := Text.startsWith_iff.mp h
    rw [← hlength, Text.drop_append, Option.some_inj]
    constructor
    · rintro rfl
      rfl
    · intro h
      simpa using h
  · rename_i h
    refine ⟨nofun, fun he => absurd (Text.startsWith_iff.mpr ⟨target, he⟩) h⟩

/-! ## Routes -/

section Routes

/-- The way of a name that an importer of module `i` wants: the modules from `i` on, each with the
name that is wanted of it and that it exports. The last one defines `w` under its name. -/
inductive Route (modules : Array Module) : Nat → String → List (Nat × String) → Word → Prop
  | here {i : Nat} {name : String} {x : Module} {w : Word} (hx : modules[i]? = some x)
      (he : x.isExported name = true) (hw : x.ownWord? name = some w) :
      Route modules i name [(i, name)] w
  | through {i : Nat} {name target : String} {x : Module} {imp : Import}
      {path : List (Nat × String)} {w : Word} (hx : modules[i]? = some x)
      (he : x.isExported name = true) (himp : imp ∈ x.imports) (hname : name = imp.shown target)
      (h : Route modules imp.module target path w) : Route modules i name ((i, name) :: path) w

/-- The way of a name that is wanted inside of module `m`, along one of its imports; `path` are the
modules after `m`. -/
def ImportRoute (modules : Array Module) (m : Nat) (name : String) (path : List (Nat × String))
    (w : Word) : Prop :=
  ∃ x imp target, modules[m]? = some x ∧ imp ∈ x.imports ∧ name = imp.shown target ∧
    Route modules imp.module target path w

variable {modules : Array Module} {i m : Nat} {name : String} {path : List (Nat × String)} {w : Word}

/-- A route from every place on a route. -/
theorem Route.from_mem (h : Route modules i name path w) {p : Nat × String} (hp : p ∈ path) :
    ∃ rest, rest <:+ path ∧ Route modules p.1 p.2 rest w := by
  induction h with
  | here hx he hw =>
    obtain rfl := List.mem_singleton.mp hp
    exact ⟨_, List.suffix_rfl, .here hx he hw⟩
  | through hx he himp hname h ih =>
    obtain rfl | hp := List.mem_cons.mp hp
    · exact ⟨_, List.suffix_rfl, .through hx he himp hname h⟩
    · obtain ⟨rest, hrest, hr⟩ := ih hp
      exact ⟨rest, hrest.trans (List.suffix_cons ..), hr⟩

/-- A route begins at its module, and goes on along an import unless the module defines the name. -/
theorem Route.cases_head (h : Route modules i name path w) :
    ∃ x rest, modules[i]? = some x ∧ path = (i, name) :: rest ∧
      (x.ownWord? name = some w ∨ ImportRoute modules i name rest w) := by
  cases h with
  | here hx he hw => exact ⟨_, [], hx, rfl, .inl hw⟩
  | through hx he himp hname h => exact ⟨_, _, hx, rfl, .inr ⟨_, _, _, hx, himp, hname, h⟩⟩

/-- No module stands on the way under two names. -/
def OneName (path : List (Nat × String)) : Prop := ∀ p ∈ path, ∀ q ∈ path, p.1 = q.1 → p = q

theorem OneName.subset {path rest : List (Nat × String)} (h : OneName path) (hs : rest ⊆ path) :
    OneName rest :=
  fun p hp q hq => h p (hs hp) q (hs hq)

theorem oneName_of_nodup {path : List (Nat × String)} (h : (path.map Prod.fst).Nodup) :
    OneName path :=
  fun _ hp _ hq => List.inj_on_of_nodup_map h hp hq

/-- A route on which no module has two names can be cut to one that enters no module twice. -/
theorem Route.simple (h : Route modules i name path w) (ho : OneName path) :
    ∃ short, short ⊆ path ∧ Route modules i name short w ∧ (short.map Prod.fst).Nodup := by
  induction h with
  | here hx he hw => exact ⟨_, List.Subset.refl _, .here hx he hw, List.nodup_singleton _⟩
  | @through i name target x imp path w hx he himp hname h ih =>
    obtain ⟨short, hsub, hroute, hnodup⟩ := ih (ho.subset (List.subset_cons_self ..))
    by_cases hmem : i ∈ short.map Prod.fst
    · -- the way comes back to the module, and under the same name: what lies between is cut
      obtain ⟨p, hp, hpi⟩ := List.mem_map.mp hmem
      have hpe : p = (i, name) :=
        ho p (List.mem_cons_of_mem _ (hsub hp)) (i, name) List.mem_cons_self hpi
      obtain ⟨rest, hrest, hr⟩ := hroute.from_mem hp
      subst hpe
      exact ⟨rest, fun q hq => List.mem_cons_of_mem _ (hsub (hrest.subset hq)), hr,
        hnodup.sublist (hrest.sublist.map _)⟩
    · exact ⟨(i, name) :: short, List.cons_subset_cons _ hsub, .through hx he himp hname hroute,
        List.nodup_cons.mpr ⟨hmem, hnodup⟩⟩

/-- The route of an import can be cut in the same way, unless the module defines the name itself. -/
theorem ImportRoute.simple (h : ImportRoute modules m name path w)
    (ho : OneName ((m, name) :: path)) :
    (∃ x, modules[m]? = some x ∧ x.ownWord? name = some w) ∨
      ∃ short, ImportRoute modules m name short w ∧ (m :: short.map Prod.fst).Nodup := by
  obtain ⟨x, imp, target, hx, himp, hname, hroute⟩ := h
  obtain ⟨short, hsub, hshort, hnodup⟩ := hroute.simple (ho.subset (List.subset_cons_self ..))
  by_cases hmem : m ∈ short.map Prod.fst
  · obtain ⟨p, hp, hpm⟩ := List.mem_map.mp hmem
    have hpe : p = (m, name) :=
      ho p (List.mem_cons_of_mem _ (hsub hp)) (m, name) List.mem_cons_self hpm
    obtain ⟨rest, hrest, hr⟩ := hshort.from_mem hp
    subst hpe
    obtain ⟨y, tail, hy, rfl, hown | himport⟩ := hr.cases_head
    · exact .inl ⟨y, hy, hown⟩
    · exact .inr ⟨tail, himport, hnodup.sublist (hrest.sublist.map Prod.fst)⟩
  · exact .inr ⟨short, ⟨x, imp, target, hx, himp, hname, hshort⟩, List.nodup_cons.mpr ⟨hmem, hnodup⟩⟩

end Routes

/-! ## Looking words up -/

section Lookup

variable {modules : Array Module} {barred : List Nat} {i m : Nat} {name : String}
  {path : List (Nat × String)} {w : Word}

/-- Nothing is found in a module that is barred, that does not export the name, or that does not
exist. -/
theorem exportedWord?_eq_none
    (h : i ∈ barred ∨ ∀ x, modules[i]? = some x → x.isExported name = false) :
    exportedWord? modules barred i name = none := by
  rw [exportedWord?]
  split
  · rename_i hi
    obtain h | h := h
    · simp [h]
    · simp [h _ (Array.getElem?_eq_getElem hi)]
  · rfl

theorem exportedWord?_of_barred (h : i ∈ barred) : exportedWord? modules barred i name = none :=
  exportedWord?_eq_none (.inl h)

/-- An exported name is looked for in the module, and then along its imports, the latest first. -/
theorem exportedWord?_of_exported {x : Module} (hx : modules[i]? = some x) (hi : i ∉ barred)
    (he : x.isExported name = true) :
    exportedWord? modules barred i name =
      (x.ownWord? name).or (x.imports.reverse.findSome? fun imp =>
        match imp.target? name with
        | some target => exportedWord? modules (i :: barred) imp.module target
        | none => none) := by
  obtain ⟨hsize, rfl⟩ := Array.getElem?_eq_some_iff.mp hx
  have hb : barred.contains i = false := by simpa using hi
  rw [exportedWord?, dif_pos hsize, dif_pos hb]
  exact if_pos he

theorem route_of_exportedWord? (h : exportedWord? modules barred i name = some w) :
    ∃ path, Route modules i name path w ∧ (path.map Prod.fst).Nodup ∧ ∀ p ∈ path, p.1 ∉ barred := by
  fun_induction exportedWord? modules barred i name generalizing w with
  | case1 barred i name hi hb x he =>
    rename_i ih
    have hx : modules[i]? = some x := Array.getElem?_eq_getElem hi
    have hnot : i ∉ barred := by simpa using hb
    obtain hw | ⟨-, h⟩ := Option.or_eq_some_iff.mp h
    · exact ⟨_, .here hx he hw, List.nodup_singleton _, by simpa using hnot⟩
    · obtain ⟨imp, himp, h⟩ := List.exists_of_findSome?_eq_some h
      cases ht : imp.target? name with
      | none => simp [ht] at h
      | some target =>
        obtain ⟨path, hroute, hnodup, hout⟩ := ih imp target (by simpa [ht] using h)
        have hi' : i ∉ path.map Prod.fst := fun hmem => by
          obtain ⟨p, hp, rfl⟩ := List.mem_map.mp hmem
          exact hout p hp List.mem_cons_self
        refine ⟨_, .through hx he (List.mem_reverse.mp himp) (Import.target?_eq_some_iff.mp ht) hroute,
          List.nodup_cons.mpr ⟨hi', hnodup⟩, List.forall_mem_cons.mpr ⟨hnot, fun p hp hmem => ?_⟩⟩
        exact hout p hp (List.mem_cons_of_mem _ hmem)
  | _ => simp at h

/-- Something is found along every route that enters no module twice, and none that is barred. It
need not be the word of that route. -/
theorem Route.found (h : Route modules i name path w) (hnodup : (path.map Prod.fst).Nodup)
    (hout : ∀ p ∈ path, p.1 ∉ barred) : (exportedWord? modules barred i name).isSome := by
  induction h generalizing barred with
  | @here i name x w hx he hw =>
    rw [exportedWord?_of_exported hx (hout _ (List.mem_singleton_self _)) he, hw]
    rfl
  | @through i name target x imp path w hx he himp hname h ih =>
    obtain ⟨hfirst, hrest⟩ := List.forall_mem_cons.mp hout
    obtain ⟨hni, hnodup⟩ := List.nodup_cons.mp hnodup
    have hfound : (exportedWord? modules (i :: barred) imp.module target).isSome := by
      refine ih hnodup fun p hp => ?_
      rw [List.mem_cons, not_or]
      exact ⟨fun he => hni (List.mem_map.mpr ⟨p, hp, he⟩), hrest p hp⟩
    rw [exportedWord?_of_exported hx hfirst he, Option.isSome_or, Bool.or_eq_true]
    refine .inr (List.findSome?_isSome_iff.mpr ⟨imp, List.mem_reverse.mpr himp, ?_⟩)
    rw [Import.target?_eq_some_iff.mpr hname]
    exact hfound

theorem route_of_importedWord? {x : Module} (hx : modules[m]? = some x)
    (h : importedWord? modules m x.imports name = some w) :
    ∃ path, ImportRoute modules m name path w ∧ (m :: path.map Prod.fst).Nodup := by
  obtain ⟨imp, himp, h⟩ := List.exists_of_findSome?_eq_some h
  cases ht : imp.target? name with
  | none => simp [ht] at h
  | some target =>
    obtain ⟨path, hroute, hnodup, hout⟩ := route_of_exportedWord? (by simpa [ht] using h)
    refine ⟨path, ⟨x, imp, target, hx, List.mem_reverse.mp himp, Import.target?_eq_some_iff.mp ht,
      hroute⟩, List.nodup_cons.mpr ⟨fun hmem => ?_, hnodup⟩⟩
    obtain ⟨p, hp, rfl⟩ := List.mem_map.mp hmem
    exact hout p hp (List.mem_singleton_self _)

theorem ImportRoute.found (h : ImportRoute modules m name path w)
    (hnodup : (m :: path.map Prod.fst).Nodup) :
    ∃ x, modules[m]? = some x ∧ (importedWord? modules m x.imports name).isSome := by
  obtain ⟨x, imp, target, hx, himp, hname, hroute⟩ := h
  obtain ⟨hm, hnodup⟩ := List.nodup_cons.mp hnodup
  refine ⟨x, hx, List.findSome?_isSome_iff.mpr ⟨imp, List.mem_reverse.mpr himp, ?_⟩⟩
  rw [Import.target?_eq_some_iff.mpr hname]
  refine hroute.found hnodup fun p hp hmem => hm ?_
  exact List.mem_map.mpr ⟨p, hp, List.mem_singleton.mp hmem⟩

/-- The own word of a module, the constant for its variable, or what its imports give. -/
inductive Found (modules : Array Module) (m : Nat) (name : String) : Word → Prop
  /-- The latest definition of the name in the module. -/
  | own {x : Module} {w : Word} (hx : modules[m]? = some x) (hw : x.ownWord? name = some w) :
      Found modules m name w
  /-- A reference to the variable of the name in the module. -/
  | cell {x : Module} {cell : Nat} (hx : modules[m]? = some x) (hc : x.cell? name = some cell) :
      Found modules m name (.constant { name } (.variableRef ⟨cell, name⟩))
  /-- A word that the modules on a route export; none of them is entered twice. -/
  | imported {path : List (Nat × String)} {w : Word} (h : ImportRoute modules m name path w)
      (hnodup : (m :: path.map Prod.fst).Nodup) : Found modules m name w

theorem found_of_findIn? (h : findIn? modules m name = some w) : Found modules m name w := by
  unfold findIn? at h
  split at h
  · cases h
  rename_i x hx
  split at h
  · rename_i w' hw
    obtain rfl := Option.some.inj h
    exact .own hx hw
  split at h
  · rename_i cell hc
    obtain rfl := Option.some.inj h
    exact .cell hx hc
  · obtain ⟨path, hroute, hnodup⟩ := route_of_importedWord? hx h
    exact .imported hroute hnodup

theorem Found.isSome (h : Found modules m name w) : (findIn? modules m name).isSome := by
  have hmodule : ∀ {x}, modules[m]? = some x → ((x.ownWord? name).isSome ∨ (x.cell? name).isSome ∨
      (importedWord? modules m x.imports name).isSome) → (findIn? modules m name).isSome := by
    intro x hx hsome
    unfold findIn?
    rw [hx]
    simp only
    split
    · rfl
    split
    · rfl
    · simp_all
  cases h with
  | own hx hw => exact hmodule hx (.inl (by rw [hw]; rfl))
  | cell hx hc => exact hmodule hx (.inr (.inl (by rw [hc]; rfl)))
  | imported h hnodup =>
    obtain ⟨x, hx, hfound⟩ := h.found hnodup
    exact hmodule hx (.inr (.inr hfound))

theorem isSome_findIn?_iff : (findIn? modules m name).isSome ↔ ∃ w, Found modules m name w :=
  ⟨fun h => (Option.isSome_iff_exists.mp h).imp fun _ => found_of_findIn?, fun ⟨_, h⟩ => h.isSome⟩

end Lookup

/-! ## What importers see -/

/-- What importers can see of a module: the words under exported names. -/
def Module.facade (x : Module) : Module :=
  { x with words := x.words.filter fun w => x.isExported w.name, cells := [] }

theorem Module.ownWord?_facade {x : Module} {name : String} (h : x.isExported name = true) :
    x.facade.ownWord? name = x.ownWord? name := by
  unfold ownWord? facade
  simp only
  rw [← List.filter_reverse, List.find?_filter]
  congr 1
  funext w
  by_cases hw : w.name = name
  · simp [hw, h]
  · simp [hw]

/-- The modules as module `m` sees them: itself, and the facades of all others. -/
def seenFrom (m : Nat) (modules : Array Module) : Array Module :=
  modules.mapIdx fun k x => if k = m then x else x.facade

section Facades

variable {modules : Array Module} {m : Nat} {name : String}

theorem getElem?_seenFrom (i : Nat) :
    (seenFrom m modules)[i]? = modules[i]?.map fun x => if i = m then x else x.facade :=
  Array.getElem?_mapIdx ..

/-- Each module shows the same to importers as before. -/
theorem exists_getElem?_seenFrom {i : Nat} {x : Module} (hx : modules[i]? = some x) :
    ∃ y, (seenFrom m modules)[i]? = some y ∧ y.exports = x.exports ∧ y.imports = x.imports ∧
      ∀ name, x.isExported name = true → y.ownWord? name = x.ownWord? name := by
  rw [getElem?_seenFrom, hx, Option.map_some]
  split
  · exact ⟨x, rfl, rfl, rfl, fun _ _ => rfl⟩
  · exact ⟨x.facade, rfl, rfl, rfl, fun _ => Module.ownWord?_facade⟩

theorem exportedWord?_seenFrom_eq_none {barred : List Nat} {i : Nat}
    (h : i ∈ barred ∨ ∀ x, modules[i]? = some x → x.isExported name = false) :
    exportedWord? (seenFrom m modules) barred i name = none := by
  refine exportedWord?_eq_none (h.imp_right fun h y hy => ?_)
  rw [getElem?_seenFrom] at hy
  obtain ⟨x, hx, rfl⟩ := Option.map_eq_some_iff.mp hy
  split <;> exact h x hx

theorem exportedWord?_seenFrom (barred : List Nat) (i : Nat) (name : String) :
    exportedWord? (seenFrom m modules) barred i name = exportedWord? modules barred i name := by
  fun_induction exportedWord? modules barred i name with
  | case1 barred i name hi hb x he =>
    rename_i ih
    have hx : modules[i]? = some x := Array.getElem?_eq_getElem hi
    have hi : i ∉ barred := by simpa using hb
    obtain ⟨y, hy, hexports, himports, hown⟩ := exists_getElem?_seenFrom hx
    have hey : y.isExported name = true := by rwa [Module.isExported, hexports]
    rw [exportedWord?_of_exported hy hi hey, hown name he, himports]
    congr 2
    funext imp
    cases imp.target? name with
    | none => rfl
    | some target => exact ih imp target
  | case2 barred i name hi hb x he =>
    refine exportedWord?_seenFrom_eq_none (.inr fun y hy => ?_)
    rw [Array.getElem?_eq_getElem hi] at hy
    obtain rfl := Option.some.inj hy
    simpa using he
  | case3 barred i name hi hb => exact exportedWord?_seenFrom_eq_none (.inl (by simpa using hb))
  | case4 barred i name hi =>
    refine exportedWord?_seenFrom_eq_none (.inr fun y hy => ?_)
    rw [Array.getElem?_eq_none (Nat.not_lt.mp hi)] at hy
    cases hy

/-- A module finds the same whatever the other modules hold that they do not export. -/
theorem findIn?_seenFrom : findIn? (seenFrom m modules) m name = findIn? modules m name := by
  have hm : (seenFrom m modules)[m]? = modules[m]? := by
    rw [getElem?_seenFrom]
    simp
  unfold findIn? importedWord?
  rw [hm]
  simp only [exportedWord?_seenFrom]

end Facades

/-! ## Main results -/

/-- A word that a module finds under a name, and that is neither its own latest definition of the
name nor a reference to its own variable, has come along a route of imports on which every module
exports the name that is wanted of it and none is entered twice; it is the latest definition of the
last one. Neither variables nor words that are not exported can be seen from outside. -/
theorem imported_words_are_exported {modules : Array Module} {m : Nat} {x : Module} {name : String}
    {w : Word} (hx : modules[m]? = some x) (h : findIn? modules m name = some w)
    (hown : x.ownWord? name ≠ some w)
    (hcell : ∀ cell, x.cell? name = some cell → w ≠ .constant { name } (.variableRef ⟨cell, name⟩)) :
    (∃ path, ImportRoute modules m name path w ∧ (m :: path.map Prod.fst).Nodup) ∧
      findIn? (seenFrom m modules) m name = some w := by
  refine ⟨?_, findIn?_seenFrom.trans h⟩
  cases found_of_findIn? h with
  | own hy hw =>
    obtain rfl := Option.some.inj (hx.symm.trans hy)
    exact absurd hw hown
  | cell hy hc =>
    obtain rfl := Option.some.inj (hx.symm.trans hy)
    exact absurd rfl (hcell _ hc)
  | imported hroute hnodup => exact ⟨_, hroute, hnodup⟩

/-- Modules that import each other, the second one under a qualifier. The third one defines the word
that they export twice, and holds a word and a variable of its own. -/
def ringModules : Array Module :=
  let word := fun name value => Word.constant { name } (.str value)
  #[{ name := "outer", exports := ["W"], imports := [⟨1, "l"⟩] },
    { name := "middle", exports := ["W"], imports := [⟨2, ""⟩, ⟨0, ""⟩] },
    { name := "inner", words := [word "W" "first", word "W" "latest", word "PRIVATE" "p"],
      exports := ["W", "v"], cells := [("v", 0)], imports := [⟨0, ""⟩] }]

theorem ringModules_found :
    findIn? ringModules 0 "l.W" = some (.constant { name := "W" } (.str "latest")) := by
  have hinner : exportedWord? ringModules [1, 0] 2 "W" =
      some (.constant { name := "W" } (.str "latest")) := by
    rw [exportedWord?_of_exported rfl (by decide) rfl]
    rfl
  have hmiddle : exportedWord? ringModules [0] 1 "W" = exportedWord? ringModules [1, 0] 2 "W" := by
    rw [exportedWord?_of_exported rfl (by decide) rfl]
    show ((none : Option Word).or ([⟨0, ""⟩, ⟨2, ""⟩].findSome? fun imp : Import =>
      exportedWord? ringModules [1, 0] imp.module "W")) = _
    simp [exportedWord?_of_barred]
  show ([⟨1, "l"⟩].findSome? fun imp : Import => exportedWord? ringModules [0] imp.module "W") = _
  rw [List.findSome?_singleton, hmiddle, hinner]

/-- The word is found under its qualified name along the ring, which is not entered again. -/
theorem imported_words_are_exported_ring :
    let w := Word.constant { name := "W" } (.str "latest")
    (findIn? ringModules 0 "l.W" = some w ∧ ringModules[0].ownWord? "l.W" = none ∧
        ringModules[0].cell? "l.W" = none) ∧
      (∃ path, ImportRoute ringModules 0 "l.W" path w ∧ (0 :: path.map Prod.fst).Nodup) ∧
        findIn? (seenFrom 0 ringModules) 0 "l.W" = some w :=
  ⟨⟨ringModules_found, rfl, rfl⟩,
    imported_words_are_exported rfl ringModules_found nofun nofun⟩

/-- Something is found under a name if and only if the module has a word or a variable of the name,
or there is a route of imports to a word on which no module is entered under two names. Whether the
route comes back to a module under the same name does not matter. -/
theorem found_iff_one_name_route (modules : Array Module) (m : Nat) (name : String) :
    (findIn? modules m name).isSome ↔
      (∃ x, modules[m]? = some x ∧ ((x.ownWord? name).isSome ∨ (x.cell? name).isSome)) ∨
        ∃ path w, ImportRoute modules m name path w ∧ OneName ((m, name) :: path) := by
  rw [isSome_findIn?_iff]
  constructor
  · rintro ⟨w, h⟩
    cases h with
    | own hx hw => exact .inl ⟨_, hx, .inl (Option.isSome_of_eq_some hw)⟩
    | cell hx hc => exact .inl ⟨_, hx, .inr (Option.isSome_of_eq_some hc)⟩
    | imported h hnodup => exact .inr ⟨_, _, h, oneName_of_nodup (by simpa using hnodup)⟩
  · rintro (⟨x, hx, hown | hcell⟩ | ⟨path, w, h, ho⟩)
    · obtain ⟨w, hw⟩ := Option.isSome_iff_exists.mp hown
      exact ⟨w, .own hx hw⟩
    · obtain ⟨cell, hc⟩ := Option.isSome_iff_exists.mp hcell
      exact ⟨_, .cell hx hc⟩
    · obtain ⟨x, hx, hw⟩ | ⟨short, hshort, hnodup⟩ := h.simple ho
      · exact ⟨w, .own hx hw⟩
      · exact ⟨w, .imported hshort hnodup⟩

/-- Two modules that import each other. The second one exports the word of the first one under its
qualifier. -/
def mirrorModules : Array Module :=
  #[{ name := "a", words := [.constant { name := "X" } (.str "x")], exports := ["X"],
      imports := [⟨1, ""⟩] },
    { name := "b", exports := ["p.X"], imports := [⟨0, "p"⟩] }]

/-- The first module does not find what the second one exports, although a route leads to it: the
route goes through the first module itself, under another name. -/
theorem reachable_word_may_be_lost :
    ImportRoute mirrorModules 0 "p.X" [(1, "p.X"), (0, "X")]
        (.constant { name := "X" } (.str "x")) ∧
      findIn? mirrorModules 0 "p.X" = none := by
  constructor
  · have hback : Route mirrorModules 0 "X" [(0, "X")] (.constant { name := "X" } (.str "x")) :=
      .here rfl rfl rfl
    have hp : (⟨0, "p"⟩ : Import) ∈ mirrorModules[1].imports := List.mem_singleton_self _
    exact ⟨_, ⟨1, ""⟩, "p.X", rfl, List.mem_singleton_self _, rfl, .through rfl rfl hp rfl hback⟩
  · have hb : exportedWord? mirrorModules [0] 1 "p.X" = none := by
      rw [exportedWord?_of_exported rfl (by decide) rfl]
      show ((none : Option Word).or ([⟨0, "p"⟩].findSome? fun imp : Import =>
        exportedWord? mirrorModules [1, 0] imp.module "X")) = _
      simp [exportedWord?_of_barred]
    show ([⟨1, ""⟩].findSome? fun imp : Import => exportedWord? mirrorModules [0] imp.module "p.X") = _
    rw [List.findSome?_singleton, hb]

end Wordstack
