import Wordstack.Proofs.Bridge.CodeProperty
import Wordstack.Proofs.Machine.Calls
import Wordstack.Proofs.Machine.Hiding

/-!
# Duplicates

A duplicate has an outermost module of its own, with variables of its own. Whatever is run on it,
the outermost module of the original stays as it is, and so does each of its variables that no
compiled word and no value refers to.

- **Homes** (`Store.IsHome`): outermost modules are ready, and are no blocks of others.
- **Reached interpreters** (`Reached`): their outermost module is a home, by induction on the runs
  (`Reached.isHome`).
- **Runs on a duplicate** (`runs_on_duplicate`), in the territory away from the original's home.
- **Compiled words** (`duplicate_sets_variable_of_original`): a word that refers to a variable of
  the original still does so in the duplicate.
-/

namespace Wordstack

/-! ## Homes -/

/-- A module that code can come into only if it starts there. -/
structure Store.IsHome (s : Store) (app : Nat) : Prop where
  wellFormed : s.WellFormed
  app_lt : app < s.modules.size
  ready : (s.module app).isReady = true
  block : ∀ m, ∀ c ∈ (s.module m).children, c.2 ≠ app

namespace Territory

variable {s t : Store} {i j : Interp} {app : Nat}

/-- The territory of code that starts at home: it goes everywhere, but the home becomes no block. -/
def fromHome (h : s.IsHome app) : Territory :=
  unbarred s (fun m => m ≠ app) (fun hm he => Nat.not_lt.mpr hm (he ▸ h.app_lt)) h.block

theorem isHome_of_holds (h : s.IsHome app) (ht : (fromHome h).Holds t) : t.IsHome app where
  wellFormed := ht.wellFormed h.wellFormed
  app_lt := Nat.lt_of_lt_of_le h.app_lt ht.size
  ready := ht.ready h.ready
  block _ := ht.children ⟨⟩

theorem within_fromHome (h : s.IsHome i.app) : (fromHome h).Within i.app i.initializing i :=
  ⟨rfl, ⟨⟩, fun _ _ => ⟨⟩, fun _ _ => .inl ⟨⟩, fun _ _ => .inl ⟨⟩, fun _ _ => .inl ⟨⟩, rfl,
    .of_none (fun _ => id) i⟩

/-- The territory of code that does not start at the home: it does not go there. -/
def awayFrom (h : s.IsHome app) (hidden : Nat → Prop) (hexisting : ∀ {c}, hidden c → c < s.cells.size)
    (havoids : s.Avoids hidden fun m => m ≠ app) : Territory where
  base := s
  own := fun m => m ≠ app
  block := fun m => m ≠ app
  hidden := hidden
  own_of_block := id
  new := fun hm he => Nat.not_lt.mpr hm (he ▸ h.app_lt)
  inner := fun _ => h.block _
  served := fun _ _ e _ => by
    by_cases he : e.2 = app
    · exact .inr (he ▸ h.ready)
    · exact .inl he
  existing := hexisting
  avoids := havoids

end Territory

/-! ## Reached interpreters -/

/-- An interpreter that was made, or copied from one that was reached, and then used for runs. -/
inductive Reached (depth : Nat) : Interp → Store → Prop
  | standard {s t : Store} {settings : Interp.Settings} {ms : List Nat} {i : Interp}
      (hs : s.WellFormed) (h : Interp.standard s settings ms = .ok (i, t)) : Reached depth i t
  | plain {s t : Store} {settings : Interp.Settings} {ms : List Nat} {i : Interp}
      (hs : s.WellFormed) (h : Interp.plain s settings ms = .ok (i, t)) : Reached depth i t
  | copy {i : Interp} {s : Store} (h : Reached depth i s) :
      Reached depth (i.duplicate s).1 (i.duplicate s).2
  | run {i j : Interp} {s t : Store} {r : Result Unit} {source : String} {origin : Location}
      (h : Reached depth i s)
      (hrun : (runSource (nested depth) source origin).finish i s = .ended r j t)
      (hr : r ≠ .exhausted) : Reached depth j t

section Making

variable {s t : Store} {i j : Interp} {settings : Interp.Settings} {ms : List Nat} {app : Nat}

/-- A new module is a home: there is nothing else that refers to it. -/
theorem isHome_of_bare {isStandard : Bool} (hs : s.WellFormed)
    (h : Interp.bare s settings isStandard = .ok (i, t)) :
    i.initializing = [] ∧ t.IsHome i.app := by
  obtain ⟨-, rfl, rfl⟩ := Interp.of_bare h
  obtain ⟨-, ht⟩ := (Territory.holds_everywhere s).addModule (x := { name := "" }) rfl rfl rfl nofun
  have hmodule := s.module_addModule { name := "" }
  refine ⟨rfl, (ht.same).wellFormed hs, ?_, ?_, fun m c hc => ?_⟩
  · exact Nat.lt_of_lt_of_eq (Nat.lt_succ_self _) (Array.size_push ..).symm
  · exact congrArg Module.isReady ((hmodule _).trans (if_pos rfl))
  · have hc : c ∈ ((s.addModule { name := "" }).2.module m).children := hc
    rw [hmodule] at hc
    split at hc
    · cases hc
    · exact Nat.ne_of_lt (hs.children m c hc)

theorem Territory.Made.isHome {h : s.IsHome app} (hmade : (fromHome h).Made app (j, t)) :
    t.IsHome j.app :=
  hmade.within.app ▸ isHome_of_holds h hmade.holds

theorem isHome_of_standard (hs : s.WellFormed) (h : Interp.standard s settings ms = .ok (i, t)) :
    t.IsHome i.app := by
  obtain ⟨i₀, s₀, i₁, s₁, hbare, hcore, hi⟩ := Interp.of_standard h
  obtain ⟨hinit, hp⟩ := isHome_of_bare hs hbare
  have hmade : (Territory.fromHome hp).Made i₀.app (i₀, s₀) :=
    ⟨hinit ▸ Territory.within_fromHome hp, Territory.holds_base _⟩
  have hall : (Territory.fromHome hp).Made i₀.app (i, t) :=
    hi ▸ (hmade.withCore hcore).attachAll fun _ _ => .inl ⟨⟩
  exact hall.isHome

theorem isHome_of_plain (hs : s.WellFormed) (h : Interp.plain s settings ms = .ok (i, t)) :
    t.IsHome i.app := by
  obtain ⟨i₀, s₀, hbare, hi⟩ := Interp.of_plain h
  obtain ⟨hinit, hp⟩ := isHome_of_bare hs hbare
  have hmade : (Territory.fromHome hp).Made i₀.app (i₀, s₀) :=
    ⟨hinit ▸ Territory.within_fromHome hp, Territory.holds_base _⟩
  have hall : (Territory.fromHome hp).Made i₀.app (i, t) :=
    hi ▸ hmade.attachAll fun _ _ => .inl ⟨⟩
  exact hall.isHome

/-- Homes stay homes when an interpreter is copied, and the outermost module of the copy is one. -/
theorem Store.IsHome.duplicate (h : s.IsHome i.app) :
    (i.duplicate s).2.IsHome i.app ∧ (i.duplicate s).2.IsHome (i.duplicate s).1.app := by
  have hs := h.wellFormed
  obtain ⟨happ, hsize⟩ := Store.size_copyModule (m := i.app) hs
  have hmodule : ∀ k, ((i.duplicate s).2.module k) = if k = s.modules.size then
      { s.module i.app with cells := (s.copyCells (s.module i.app).cells).1 } else s.module k :=
    Store.module_copyModule hs
  have hwell : (i.duplicate s).2.WellFormed :=
    ⟨hs.copyModule.children, hs.copyModule.cells, hs.copyModule.apart⟩
  -- the blocks inside of modules are old ones
  have hblock : ∀ m, ∀ c ∈ ((i.duplicate s).2.module m).children, c.2 ≠ i.app ∧
      c.2 < s.modules.size := fun m c hc => by
    rw [hmodule] at hc
    split at hc
    · exact ⟨h.block _ c hc, hs.children _ c hc⟩
    · exact ⟨h.block m c hc, hs.children m c hc⟩
  have hnew : (i.duplicate s).1.app = s.modules.size := happ
  have hle : (i.duplicate s).2.modules.size = s.modules.size + 1 := hsize
  refine ⟨⟨hwell, ?_, ?_, fun m c hc => (hblock m c hc).1⟩, ⟨hwell, ?_, ?_, fun m c hc => ?_⟩⟩
  · exact hle ▸ Nat.lt_succ_of_lt h.app_lt
  · rw [hmodule, if_neg (Nat.ne_of_lt h.app_lt)]
    exact h.ready
  · exact hle ▸ hnew ▸ Nat.lt_succ_self _
  · rw [hmodule, if_pos hnew]
    exact h.ready
  · exact hnew ▸ Nat.ne_of_lt (hblock m c hc).2

/-- What a run leaves of a home that it starts from. -/
theorem Store.IsHome.run {depth : Nat} {r : Result Unit} {source : String} {origin : Location}
    (h : s.IsHome i.app) (hrun : (runSource (nested depth) source origin).finish i s = .ended r j t)
    (hr : r ≠ .exhausted) : t.IsHome j.app := by
  let T := Territory.fromHome h
  have hkept : Outcome.Kept (T.guard i.app i.initializing) (fun _ => True)
      ((runSource (nested depth) source origin).finish i s) :=
    ((T.confines_nested (depth + 1)).run source origin).finish (Territory.within_fromHome h)
      T.holds_base
  rw [hrun] at hkept
  cases hkept with
  | ok _ hj ht => exact hj.app ▸ Territory.isHome_of_holds h ht
  | fault hj ht => exact hj.app ▸ Territory.isHome_of_holds h ht
  | exhausted => exact absurd rfl hr

end Making

/-- The outermost module of an interpreter that was reached is a home. -/
theorem Reached.isHome {depth : Nat} {i : Interp} {s : Store} (h : Reached depth i s) :
    s.IsHome i.app := by
  induction h with
  | standard hs h => exact isHome_of_standard hs h
  | plain hs h => exact isHome_of_plain hs h
  | copy _ ih => exact ih.duplicate.2
  | run _ hrun hr ih => exact ih.run hrun hr

/-! ## Runs on a duplicate -/

/-- Nothing refers to a cell: no word of a module, no value in a variable or on the stack, and no
memo. The variables that modules have by name do not count. -/
def Interp.Unreferenced (i : Interp) (s : Store) (cell : Nat) : Prop :=
  i.Avoids (· = cell) ∧ s.Avoids (· = cell) fun _ => False

/-- What is run on a duplicate stays away from the original's home, and from variables to which
nothing refers. -/
theorem Store.IsHome.kept_by_duplicate {depth : Nat} {i : Interp} {s : Store} (h : s.IsHome i.app)
    {hidden : Nat → Prop} (hexisting : ∀ {c}, hidden c → c < s.cells.size) (hi : i.Avoids hidden)
    (havoids : s.Avoids hidden fun _ => False)
    (hown : ∀ {k}, k ≠ i.app → ∀ e ∈ (s.module k).cells, ¬ hidden e.2) (source : String)
    (origin : Location) :
    let t := ((runSource (nested depth) source origin).settle (i.duplicate s).1
      (i.duplicate s).2).2.2
    t.module i.app = s.module i.app ∧ ∀ c, hidden c → t.fetch c = s.fetch c := by
  intro t
  have hs := h.wellFormed
  obtain ⟨hhome, -⟩ := h.duplicate
  have hcopy : (i.duplicate s).2.Avoids hidden fun m => m ≠ i.app := by
    have h' := havoids.copyModule (m := i.app) hs hexisting hown
    exact ⟨h'.words, h'.vars, h'.cells, h'.memos⟩
  let T := Territory.awayFrom hhome hidden
    (fun hh => Nat.lt_of_lt_of_le (hexisting hh) (hs.copies i.app).size) hcopy
  have hknown : ∀ m, T.Known m := fun m => by
    by_cases hm : m = i.app
    · exact .inr (hm ▸ hhome.ready)
    · exact .inl hm
  have hnot : T.own (i.duplicate s).1.app := fun he =>
    Nat.ne_of_lt h.app_lt (he.symm.trans (Store.size_copyModule hs).1)
  have hwithin : T.Within (i.duplicate s).1.app [] (i.duplicate s).1 :=
    ⟨rfl, hnot, List.forall_mem_singleton.mpr hnot, fun e _ => hknown e.2, fun e _ => hknown e.2,
      fun m _ => hknown m, rfl, hi.stack, nofun, hi.recovery, hi.readers⟩
  have ht : T.Holds t :=
    ((T.confines_nested (depth + 1)).run source origin).settle hwithin T.holds_base
  refine ⟨(ht.kept (not_not_intro rfl)).trans ?_, fun c hc => (ht.fetch hc).trans ?_⟩
  · exact (Store.module_copyModule hs i.app).trans (if_neg (Nat.ne_of_lt h.app_lt))
  · exact Store.fetch_copyModule hs (hexisting hc)

/-- A duplicate begins with the stack of the original, and with variables of its own that have the
values of the original's. Whatever is then run on it, and whatever becomes of that, the outermost
module of the original, with its words and the names of its variables, is as it was, and so is each
of its variables to which nothing referred when the duplicate was made. -/
theorem runs_on_duplicate {depth : Nat} {i : Interp} {s : Store} (h : Reached depth i s)
    (source : String) (origin : Location) :
    let copy := i.duplicate s
    let t := ((runSource (nested depth) source origin).settle copy.1 copy.2).2.2
    copy.1.stack = i.stack ∧
    (∀ name c, (s.module i.app).cell? name = some c →
      ∃ c', (copy.2.module copy.1.app).cell? name = some c' ∧ s.cells.size ≤ c' ∧
        copy.2.fetch c' = s.fetch c) ∧
    t.module i.app = s.module i.app ∧
    ∀ name c, (s.module i.app).cell? name = some c → i.Unreferenced s c →
      t.fetch c = s.fetch c := by
  have hhome := h.isHome
  have hs := hhome.wellFormed
  refine ⟨rfl, fun name c hc => Store.cell?_copyModule hs hc, ?_, fun name c hc hun => ?_⟩
  · have hnone : ∀ c, ¬ (fun _ : Nat => False) c := fun _ => id
    exact (hhome.kept_by_duplicate False.elim (.of_none hnone i) (s.avoids_of_none hnone)
      (fun _ _ _ => id) source origin).1
  · have hmem := mem_of_lookup hc
    -- no other module has the variable
    have hown : ∀ {k}, k ≠ i.app → ∀ e ∈ (s.module k).cells, e.2 ≠ c :=
      fun hk e he hce => hk (hs.apart e he _ hmem hce)
    have hexisting : ∀ {d}, d = c → d < s.cells.size := fun hd => hd ▸ hs.cells _ _ hmem
    exact (hhome.kept_by_duplicate hexisting hun.1 hun.2 hown source origin).2 c rfl

/-! ## The core vocabulary alone -/

/-- A store whose only module is the core vocabulary. -/
@[irreducible]
def Store.core : Store := (({} : Store).define coreModule).toOption.elim {} (·.2)

/-- Whether a value is an integer. -/
def Val.isInt (n : Int) : Val → Bool
  | .int m => m == n
  | _ => false

theorem Val.of_isInt {n : Int} {v : Val} (h : v.isInt n = true) : v = .int n := by
  unfold Val.isInt at h
  split at h
  · rw [beq_iff_eq.mp h]
  · cases h

namespace Store

theorem define_of_build {s : Store} {spec : ModuleSpec} {x : Module}
    (h : spec.build s.nextId = .ok x) :
    s.define spec = .ok (addModule { s with nextId := s.nextId + x.words.length } x) := by
  unfold define
  rw [h]
  rfl

theorem exists_core : ∃ x, coreModule.build 0 = .ok x ∧ core.modules = #[x] := by
  have hbuild : ((coreModule.build 0).toOption.any fun _ => true) = true := by decide +kernel
  obtain ⟨x, hx, -⟩ := Except.exists_of_any hbuild
  have hdefine := congrArg (fun o => (o.toOption.elim {} Prod.snd).modules)
    (define_of_build (s := {}) hx)
  refine ⟨x, hx, ?_⟩
  unfold core
  exact hdefine

theorem module_core {x : Module} (h : core.modules = #[x]) (k : Nat) :
    core.module k = if k = 0 then x else default := by
  unfold module
  rw [h]
  cases k with
  | zero => rfl
  | succ k => rfl

theorem isHome_core : core.IsHome 0 := by
  obtain ⟨x, hx, hcore⟩ := exists_core
  obtain ⟨hready, hchildren, hcells⟩ := ModuleSpec.build_new hx
  have hnone : ∀ k, (core.module k).children = [] ∧ (core.module k).cells = [] := fun k => by
    rw [module_core hcore]
    split
    · exact ⟨hchildren, hcells⟩
    · exact ⟨rfl, rfl⟩
  refine ⟨⟨fun k => ?_, fun k => ?_, fun {k n} => ?_⟩, ?_, ?_, fun k => ?_⟩
  · rw [(hnone k).1]
    nofun
  · rw [(hnone k).2]
    nofun
  · rw [(hnone k).2]
    nofun
  · rw [hcore]
    exact Nat.zero_lt_one
  · rw [module_core hcore, if_pos rfl, hready]
    rfl
  · rw [(hnone k).1]
    nofun

theorem core_words_avoid (hidden : Nat → Prop) : ∀ w ∈ (core.module 0).words, w.Avoids hidden := by
  obtain ⟨x, hx, hcore⟩ := exists_core
  rw [module_core hcore, if_pos rfl]
  exact ModuleSpec.avoids_build (coreModule_avoids hidden) hx

end Store

/-- A variable that words have only named keeps its value, whatever is run on a duplicate. -/
theorem runs_on_duplicate_seven : ∃ i s, Reached 0 i s ∧
    (s.module i.app).cell? "x" = some 0 ∧ s.fetch 0 = .int 7 ∧ ∀ source origin,
      ((runSource (nested 0) source origin).settle (i.duplicate s).1 (i.duplicate s).2).2.2.fetch 0 =
        .int 7 := by
  have hrun : ((Interp.standard .core .emptyCore []).toOption.any fun p =>
      ((runSource (nested 0) "[\"x\"] VARIABLES 7 \"x\" !" .origin).finish p.1 p.2).isOk fun j t =>
        j.app == 1 && j.stack.values.isEmpty && j.definition.isNone && j.recovery.isNone &&
        t.modules.size == 2 && (t.module 1).words.isEmpty && (t.module 1).cells == [("x", 0)] &&
        t.cells.size == 1 && (t.fetch 0).isInt 7 && t.memos.size == 0) = true := by decide +kernel
  obtain ⟨⟨i, s⟩, hmade, hrun⟩ := Except.exists_of_any hrun
  obtain ⟨j, t, hrun, hfacts⟩ := Outcome.exists_of_isOk hrun
  simp only [Bool.and_eq_true, beq_iff_eq, List.isEmpty_iff, Option.isNone_iff_eq_none] at hfacts
  obtain ⟨⟨⟨⟨⟨⟨⟨⟨⟨happ, hstack⟩, hdefinition⟩, hrecovery⟩, hmodules⟩, hwords⟩, hcells⟩, hsize⟩,
    hseven⟩, hmemos⟩ := hfacts
  have hseven := Val.of_isInt hseven
  have hreached : Reached 0 j t :=
    .run (.standard Store.isHome_core.wellFormed hmade) hrun Result.ok_ne_exhausted
  have hcell : (t.module j.app).cell? "x" = some 0 := by
    rw [happ, Module.cell?, hcells]
    rfl
  -- the words of the core vocabulary are as they were
  let T := Territory.awayFrom Store.isHome_core (fun _ => False) False.elim
    (Store.core.avoids_of_none fun _ => id)
  have hknown : T.Known 0 := .inr Store.isHome_core.ready
  have hadmits : T.Admits .emptyCore :=
    ⟨fun e he => List.mem_singleton.mp he ▸ hknown, fun h hh => absurd hh (Option.not_mem_none h)⟩
  have hi : T.Made Store.core.modules.size (i, s) :=
    Territory.made_of_standard T.holds_base hadmits (List.forall_mem_nil _) hmade
  obtain ⟨-, -, ht⟩ := ((T.confines_nested 1).run _ _).of_ok hi.within hi.holds hrun
  have hcore : t.module 0 = Store.core.module 0 := ht.kept (not_not_intro rfl)
  -- so are the readers of literals
  obtain ⟨zone, now, hstandard⟩ := (Interp.made_of_standard hmade).readers
  have hreaders : Invariant 0 fun k => k.readers = i.readers :=
    ⟨fun h hc => by cases hc <;> exact h, fun _ h => h, fun h _ => h, fun _ h _ => h⟩
  obtain ⟨-, -, hsame⟩ := Call.finish_keeps (.run _ _) hreaders rfl hrun Result.ok_ne_exhausted
  have hunreferenced : j.Unreferenced t 0 := by
    refine ⟨⟨?_, ?_, ?_, fun r hr text v hv => ?_⟩, fun m w hw => ?_, False.elim, fun c => ?_,
      fun k => ?_⟩
    · rw [hstack]
      nofun
    · rw [hdefinition]
      nofun
    · rw [hrecovery]
      nofun
    · rw [hsame, hstandard] at hr
      exact Val.avoids_of_isSerializable (Literal.isSerializable_of_standard hr hv)
    · match m with
      | 0 => exact Store.core_words_avoid _ w (hcore ▸ hw)
      | 1 => exact absurd (hwords ▸ hw) List.not_mem_nil
      | m + 2 =>
        rw [Store.module_of_size_le (hmodules ▸ Nat.le_add_left 2 m)] at hw
        exact absurd hw List.not_mem_nil
    · cases c with
      | zero => exact hseven ▸ Val.avoids_of_isSerializable rfl
      | succ c =>
        have hnone : t.fetch (c + 1) = .null := by
          rw [Store.fetch, Array.getElem?_eq_none (hsize ▸ Nat.le_add_left 1 c)]
          rfl
        exact hnone ▸ Val.avoids_null
    · have hnone : t.memo k = {} := by
        rw [Store.memo, Array.getElem?_eq_none (hmemos ▸ Nat.zero_le k)]
        rfl
      exact hnone ▸ .empty
  refine ⟨j, t, hreached, hcell, hseven, fun source origin => ?_⟩
  rw [(runs_on_duplicate hreached source origin).2.2.2 "x" 0 hcell hunreferenced, hseven]

/-- A word that was compiled before the duplicate was made refers to the variable of the original,
and sets that one when it is run on the duplicate. -/
theorem duplicate_sets_variable_of_original : ∃ i s j t, Reached 0 i s ∧
    (s.module i.app).cell? "x" = some 0 ∧ s.fetch 0 = .int 5 ∧
    (runSource (nested 0) "6 SET" .origin).finish (i.duplicate s).1 (i.duplicate s).2 =
      .ended (.ok ()) j t ∧
    t.fetch 0 = .int 6 := by
  have hrun : ((Interp.standard .core .emptyCore []).toOption.any fun p =>
      ((runSource (nested 0) "[\"x\"] VARIABLES 5 x ! : SET x ! ;" .origin).finish p.1 p.2).isOk
        fun i s => (s.module i.app).cell? "x" == some 0 && (s.fetch 0).isInt 5 &&
          ((runSource (nested 0) "6 SET" .origin).finish (i.duplicate s).1 (i.duplicate s).2).isOk
            fun _ t => (t.fetch 0).isInt 6) = true := by decide +kernel
  obtain ⟨⟨i₀, s₀⟩, hmade, hrun⟩ := Except.exists_of_any hrun
  obtain ⟨i, s, hrun, hfacts⟩ := Outcome.exists_of_isOk hrun
  simp only [Bool.and_eq_true, beq_iff_eq] at hfacts
  obtain ⟨⟨hcell, hfive⟩, hset⟩ := hfacts
  obtain ⟨j, t, hset, hsix⟩ := Outcome.exists_of_isOk hset
  exact ⟨i, s, j, t, .run (.standard Store.isHome_core.wellFormed hmade) hrun Result.ok_ne_exhausted,
    hcell, Val.of_isInt hfive, hset, Val.of_isInt hsix⟩

end Wordstack
