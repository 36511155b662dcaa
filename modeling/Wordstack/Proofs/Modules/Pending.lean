import Wordstack.Proofs.Machine.Calls

/-!
# Modules given at construction

The sources of the modules that an interpreter was made with are run before its first run. Running
a source counts as a first run itself, so it runs the sources of all later modules before its own.

- **Starts** (`Starts`): the states in which the sources of pending modules begin to be read.
- **Nesting** (`Interp.enterAll`, `starts_enterAll`): the source that is read first is that of the
  last module, in the scopes of all modules before it.
- **Order** (`pending_modules_in_order_iff`): when each source is run in its own scope, after those
  of earlier modules and before those of later ones.
-/

namespace Wordstack

/-! ## Starts -/

/-- Whether the source of a module is not run anymore. -/
def Interp.skips (i : Interp) (s : Store) (m : Nat) : Bool :=
  (s.module m).isReady || i.initializing.contains m

/-- While the pending modules of `i` are initialized, the source of module `m` begins to be read in
the state `j`, with nothing of it read yet. -/
inductive Starts : Nat → Interp → Store → Nat → Interp → Store → Prop
  /-- The source of the first pending module is read when no others are pending anymore. -/
  | own {depth m : Nat} {rest : List Nat} {i j : Interp} {s t : Store} (hp : i.pending = m :: rest)
      (hm : i.skips s m = false)
      (h : Task.Begins (nested depth) ((i.await rest).enterModule m) s j t) :
      Starts (depth + 1) i s m j t
  /-- The others are initialized in the scope of the first one. -/
  | inside {depth m n : Nat} {rest : List Nat} {i j : Interp} {s t : Store}
      (hin : i.inputs = []) (hp : i.pending = m :: rest) (hm : i.skips s m = false)
      (h : Starts depth ((i.await rest).enterModule m) s n j t) : Starts (depth + 1) i s n j t
  /-- Modules that are pending still when the first one has been initialized follow. -/
  | next {depth m n : Nat} {rest : List Nat} {i j k : Interp} {s t u : Store}
      (hp : i.pending = m :: rest)
      (h : (initializeModule (nested depth) m).finish (i.await rest) s =
        .ended (.ok ()) k u)
      (hn : Starts depth k u n j t) : Starts depth i s n j t

section Starts

variable {depth m n : Nat} {i j : Interp} {s t : Store} {rest : List Nat}

theorem Interp.skips_enterModule (i : Interp) (s : Store) (m : Nat) :
    (i.enterModule m).skips s m = true := by
  show ((s.module m).isReady || (m :: i.initializing).contains m) = true
  rw [List.contains_cons, beq_self_eq_true, Bool.true_or, Bool.or_true]

theorem Interp.skips_of_enter (hmn : m ≠ n) (hn : i.skips s n = false) :
    (i.enterModule m).skips s n = false := by
  unfold Interp.skips at hn ⊢
  show ((s.module n).isReady || (m :: i.initializing).contains n) = false
  rw [List.contains_cons, beq_eq_false_iff_ne.mpr hmn.symm, Bool.false_or]
  exact hn

theorem finish_initializeModule_skips {e : Nested} (h : i.skips s m = true) (rest : List Nat) :
    (initializeModule e m).finish (i.await rest) s = .ended (.ok ()) (i.await rest) s :=
  finish_initializeModule_skipped h

/-- Modules that are ready or being initialized are only taken off the list. -/
theorem finish_drainPending_skips {e : Nested} {bound : Nat} (hb : i.pending.length ≤ bound)
    (h : ∀ m ∈ i.pending, i.skips s m = true) :
    (drainPending e bound).finish i s = .ended (.ok ()) (i.await []) s := by
  induction bound generalizing i with
  | zero =>
    have hnil : i.pending = [] := List.length_eq_zero_iff.mp (Nat.le_zero.mp hb)
    show Outcome.ended (.ok ()) (i.await i.pending) s = _
    rw [hnil]
  | succ bound ih =>
    cases hp : i.pending with
    | nil =>
      rw [drainPending, Task.finish_bind, Task.finish_interp, Outcome.bind_ok, hp]
      show Outcome.ended (.ok ()) (i.await i.pending) s = _
      rw [hp]
    | cons m rest =>
      rw [hp] at hb h
      rw [finish_drainPending hp, finish_initializeModule_skips (h m List.mem_cons_self)]
      have hrest : (i.await rest).pending.length ≤ bound := Nat.le_of_succ_le_succ hb
      exact ih hrest fun n hn => h n (List.mem_cons_of_mem m hn)

theorem finish_initializePending_skips {e : Nested} (h : ∀ m ∈ i.pending, i.skips s m = true) :
    (initializePending e).finish i s = .ended (.ok ()) (i.await []) s := by
  rw [finish_initializePending]
  exact finish_drainPending_skips (Nat.le_refl _) h

/-- No source is read where all pending modules are ready or being initialized. -/
theorem not_starts_of_skips (h : ∀ m ∈ i.pending, i.skips s m = true) :
    ¬Starts depth i s n j t := by
  intro hs
  induction hs with
  | own hp hm => 
    rw [hp] at h
    rw [h _ List.mem_cons_self] at hm
    cases hm
  | inside _ hp hm =>
    rw [hp] at h
    rw [h _ List.mem_cons_self] at hm
    cases hm
  | next hp hx _ ih =>
    rw [hp] at h
    rw [finish_initializeModule_skips (h _ List.mem_cons_self)] at hx
    cases hx
    exact ih fun n hn => h n (List.mem_cons_of_mem _ hn)

end Starts

/-! ## Nesting -/

/-- The interpreter in the scopes of pending modules, each inside of the ones before it. -/
def Interp.enterAll (s : Store) : List Nat → Interp → Interp
  | [], i => i.await []
  | m :: rest, i => if i.skips s m then enterAll s rest i else enterAll s rest (i.enterModule m)

section Nesting

variable {depth m : Nat} {i : Interp} {s : Store} {ps : List Nat}

theorem Interp.enterAll_await (i : Interp) (s : Store) (ps qs : List Nat) :
    (i.await qs).enterAll s ps = i.enterAll s ps := by
  induction ps generalizing i with
  | nil => rfl
  | cons m rest ih =>
    show (if i.skips s m then (i.await qs).enterAll s rest
      else ((i.enterModule m).await qs).enterAll s rest) = _
    rw [ih, ih]
    rfl

theorem Interp.enterAll_skips (h : ∀ m ∈ ps, i.skips s m = true) :
    i.enterAll s ps = i.await [] := by
  induction ps with
  | nil => rfl
  | cons m rest ih =>
    unfold enterAll
    rw [if_pos (h m List.mem_cons_self)]
    exact ih fun n hn => h n (List.mem_cons_of_mem m hn)

theorem Interp.enterAll_scope_suffix (i : Interp) (s : Store) (ps : List Nat) :
    i.scope <:+ (i.enterAll s ps).scope := by
  induction ps generalizing i with
  | nil => exact List.suffix_refl _
  | cons m rest ih =>
    unfold enterAll
    split
    · exact ih i
    · exact (List.suffix_cons m i.scope).trans (ih (i.enterModule m))

/-- Every module that is entered adds to the scope. -/
theorem Interp.enterAll_scope_length (hm : m ∈ ps) (h : i.skips s m = false) :
    i.scope.length < (i.enterAll s ps).scope.length := by
  induction ps with
  | nil => cases hm
  | cons n rest ih =>
    unfold enterAll
    by_cases hn : i.skips s n = true
    · rw [if_pos hn]
      rcases List.mem_cons.mp hm with rfl | hm
      · rw [hn] at h
        cases h
      · exact ih hm
    · rw [if_neg hn]
      exact (enterAll_scope_suffix (i.enterModule n) s rest).length_le

theorem Interp.enterAll_scope_of_nodup (hp : ps.Nodup) (h : ∀ m ∈ ps, i.skips s m = false) :
    (i.enterAll s ps).scope = ps.reverse ++ i.scope := by
  induction ps generalizing i with
  | nil => rfl
  | cons m rest ih =>
    obtain ⟨hm, hrest⟩ := List.nodup_cons.mp hp
    unfold enterAll
    rw [if_neg (by rw [h m List.mem_cons_self]; decide), ih hrest, List.reverse_cons,
      List.append_assoc]
    · rfl
    · intro n hn
      exact skips_of_enter (fun hmn => hm (hmn ▸ hn)) (h n (List.mem_cons_of_mem m hn))

/-- The source that is read first is read in the scopes of all pending modules. Nothing has been
read before. -/
theorem starts_enterAll (hin : i.inputs = []) (hi : i.pending = ps) (hd : ps.length ≤ depth)
    (hm : m ∈ ps) (h : i.skips s m = false) :
    ∃ n, (i.enterAll s ps).scope.head? = some n ∧ Starts depth i s n (i.enterAll s ps) s := by
  induction ps generalizing i depth m with
  | nil => cases hm
  | cons n rest ih =>
    obtain ⟨depth, rfl⟩ : ∃ d, depth = d + 1 := ⟨depth - 1, by simp at hd; omega⟩
    have hle : rest.length ≤ depth := Nat.le_of_succ_le_succ hd
    unfold Interp.enterAll
    by_cases hn : i.skips s n = true
    · rw [if_pos hn]
      rcases List.mem_cons.mp hm with rfl | hm
      · rw [hn] at h
        cases h
      obtain ⟨k, hhead, hk⟩ := ih (i := i.await rest) hin rfl (Nat.le_succ_of_le hle) hm h
      rw [Interp.enterAll_await] at hhead hk
      exact ⟨k, hhead, .next hi (finish_initializeModule_skips hn rest) hk⟩
    · rw [if_neg hn]
      have hn : i.skips s n = false := by simpa using hn
      by_cases hall : ∀ k ∈ rest, (i.enterModule n).skips s k = true
      · have hdrain := finish_initializePending_skips (e := nested depth)
          (i := (i.await rest).enterModule n) hall
        rw [Interp.enterAll_skips hall]
        exact ⟨n, rfl, .own hi hn (.outermost hin hdrain)⟩
      · obtain ⟨k, hk, hks⟩ : ∃ k ∈ rest, (i.enterModule n).skips s k = false := by
          simpa using hall
        obtain ⟨l, hhead, hl⟩ := ih (i := (i.await rest).enterModule n) hin rfl hle hk hks
        have heq : ((i.await rest).enterModule n).enterAll s rest =
            (i.enterModule n).enterAll s rest :=
          Interp.enterAll_await (i.enterModule n) s rest rest
        rw [heq] at hhead hl
        exact ⟨l, hhead, .inside hin hi hn hl⟩

/-- Where all pending modules are the same one, no source is left to be read once it has been. -/
theorem initialized_alone {k : Nat} {j : Interp} {t : Store} {rest : List Nat} (hin : i.inputs = [])
    (hall : ∀ k ∈ i.pending, k = m) (hp : i.pending = k :: rest)
    (h : (initializeModule (nested depth) k).finish (i.await rest) s = .ended (.ok ()) j t) :
    ∀ n ∈ j.pending, j.skips t n = true := by
  rw [hp] at hall
  obtain rfl := hall k List.mem_cons_self
  by_cases hk : i.skips s k = true
  · rw [finish_initializeModule_skips hk] at h
    cases h
    intro n hn
    rw [hall n (List.mem_cons_of_mem k hn)]
    exact hk
  · have hk : i.skips s k = false := by simpa using hk
    have hrun := finish_initializeModule (e := nested depth) (i := i.await rest) hk
    rw [hrun] at h
    rcases Outcome.of_attempt_bind h Result.ok_ne_exhausted with
      ⟨_, l, u, hx, h⟩ | ⟨f, l, u, hx, h⟩
    · cases h
      cases depth with
      | zero => cases hx
      | succ depth =>
        have hentered : ((i.await rest).enterModule k).inputs = [] := hin
        have hnil : l.pending = [] := finish_runSource_pending hentered hx
        intro n hn
        rw [show (l.leaveModule k).pending = [] from hnil] at hn
        cases hn
    · cases h

/-- Where all pending modules are the same one, its source is read in its own scope. -/
theorem starts_alone {n : Nat} {j : Interp} {t : Store} (hin : i.inputs = [])
    (hall : ∀ k ∈ i.pending, k = m) (h : Starts depth i s n j t) :
    n = m ∧ j.scope = m :: i.scope := by
  have hentered : ∀ {k rest}, i.pending = k :: rest → k = m ∧
      ∀ l ∈ rest, ((i.await rest).enterModule k).skips s l = true := by
    intro k rest hp
    rw [hp] at hall
    refine ⟨hall k List.mem_cons_self, fun l hl => ?_⟩
    rw [hall l (List.mem_cons_of_mem k hl), hall k List.mem_cons_self]
    exact Interp.skips_enterModule ..
  cases h with
  | own hp hm h =>
    obtain ⟨rfl, hskips⟩ := hentered hp
    cases h with
    | inner h => exact absurd hin h
    | outermost _ h =>
      rw [finish_initializePending_skips hskips] at h
      cases h
      exact ⟨rfl, rfl⟩
  | inside _ hp hm h => exact absurd h (not_starts_of_skips (hentered hp).2)
  | next hp hx hn => exact absurd hn (not_starts_of_skips (initialized_alone hin hall hp hx))

end Nesting

/-! ## Construction -/

section Construction

variable {i j : Interp} {s t : Store} {m n : Nat}

theorem Store.isReady_updateModule {f : Module → Module} (hf : ∀ x, (f x).isReady = x.isReady)
    (s : Store) (m n : Nat) : ((s.updateModule m f).module n).isReady = (s.module n).isReady := by
  unfold Store.module Store.updateModule
  simp only [Array.getElem?_modify]
  split
  · cases s.modules[n]? with
    | none => rfl
    | some x => exact hf x
  · rfl

/-- The modules of a list whose source was not run. -/
def Store.unready (s : Store) (ms : List Nat) : List Nat := ms.filter fun m => !(s.module m).isReady

theorem Store.unready_congr (h : ∀ n, (t.module n).isReady = (s.module n).isReady)
    (ms : List Nat) : t.unready ms = s.unready ms := by
  unfold Store.unready
  exact congrArg (ms.filter ·) (funext fun n => by rw [h])

theorem Interp.importAtCreation_pending (i : Interp) (s : Store) (m : Nat) :
    (importAtCreation (i, s) m).1.pending = i.pending ++ s.unready [m] ∧
    ∀ n, ((importAtCreation (i, s) m).2.module n).isReady = (s.module n).isReady := by
  have hready : ∀ n, ((importAtCreation (i, s) m).2.module n).isReady = (s.module n).isReady :=
    fun n => Store.isReady_updateModule (f := fun app => app.addImport ⟨m, ""⟩) (fun _ => rfl) s _ n
  refine ⟨?_, hready⟩
  rw [← Store.unready_congr hready]
  unfold importAtCreation Store.unready
  simp only
  split <;> rename_i hr
  · simp [hr]
  · simp [hr]

theorem Interp.attach_pending (i : Interp) (s : Store) (m : Nat) :
    (attach (i, s) m).1.pending = i.pending ++ s.unready [m] ∧
    ∀ n, ((attach (i, s) m).2.module n).isReady = (s.module n).isReady :=
  importAtCreation_pending (i.register s m) s m

/-- Attaching modules makes those pending whose sources were not run, in order. -/
theorem Interp.attachAll_pending (i : Interp) (s : Store) (ms : List Nat) :
    (ms.foldl attach (i, s)).1.pending = i.pending ++ s.unready ms ∧
    ∀ n, ((ms.foldl attach (i, s)).2.module n).isReady = (s.module n).isReady := by
  induction ms generalizing i s with
  | nil => exact ⟨(List.append_nil _).symm, fun _ => rfl⟩
  | cons m rest ih =>
    obtain ⟨hfirst, hready⟩ := attach_pending i s m
    obtain ⟨hrest, hkept⟩ := ih (attach (i, s) m).1 (attach (i, s) m).2
    refine ⟨?_, fun n => (hkept n).trans (hready n)⟩
    rw [List.foldl_cons]
    refine hrest.trans ?_
    rw [hfirst, Store.unready_congr hready, List.append_assoc]
    refine congrArg (i.pending ++ ·) ?_
    exact (List.filter_append [m] rest).symm

/-- The core vocabulary is pending as well, if it has a source. -/
theorem Interp.withCore_pending (hi : i.pending = []) (h : i.withCore s = .ok (j, t)) :
    ∃ core, j.pending = t.unready [core] := by
  obtain ⟨m, -, h⟩ | ⟨-, m, s', -, h⟩ := of_withCore h
  · obtain ⟨hpending, hready⟩ := importAtCreation_pending i s m
    rw [hi, List.nil_append] at hpending
    obtain ⟨rfl, rfl⟩ := Prod.mk.inj h
    exact ⟨m, hpending.trans (Store.unready_congr hready [m]).symm⟩
  · obtain ⟨hpending, hready⟩ := attach_pending i s' m
    rw [hi, List.nil_append] at hpending
    obtain ⟨rfl, rfl⟩ := Prod.mk.inj h
    exact ⟨m, hpending.trans (Store.unready_congr hready [m]).symm⟩

theorem Interp.standard_pending {settings : Settings} {modules : List Nat}
    (h : standard s settings modules = .ok (i, t)) :
    ∃ core, i.pending = t.unready (core :: modules) := by
  obtain ⟨i₀, s₀, i₁, s₁, hbare, hwith, h⟩ := of_standard h
  obtain ⟨hpending, hready⟩ := attachAll_pending i₁ s₁ modules
  have hnone : i₀.pending = [] := by
    obtain ⟨-, rfl, -⟩ := of_bare hbare
    rfl
  obtain ⟨core, hcore⟩ := withCore_pending hnone hwith
  refine ⟨core, ?_⟩
  obtain ⟨rfl, rfl⟩ := Prod.mk.inj h
  rw [hpending, hcore, Store.unready_congr hready]
  exact (List.filter_append [core] modules).symm

/-- The sources of all modules that are pending at first have to be run. -/
theorem Interp.standard_skips {settings : Settings} {modules : List Nat}
    (h : standard s settings modules = .ok (i, t)) : ∀ m ∈ i.pending, i.skips t m = false := by
  obtain ⟨core, hcore⟩ := standard_pending h
  intro m hm
  rw [hcore] at hm
  have hready := (List.mem_filter.mp hm).2
  unfold skips
  rw [(made_of_standard h).new.initializing]
  simpa using hready

end Construction

/-! ## Order -/

/-- The state in which the source of module `m` begins to be read is as it would be if the sources
of the pending modules of `i` were run in order, each to its end in its own scope. -/
structure InOrder (i : Interp) (m : Nat) (j : Interp) (t : Store) : Prop where
  scope : j.scope = [m, i.app]
  earlier : ∀ before after, i.pending = before ++ m :: after → ∀ n ∈ before, n ≠ m →
    (t.module n).isReady = true
  later : ∀ before after, i.pending = before ++ m :: after → ∀ n ∈ after, n ≠ m →
    (t.module n).isReady = false ∧ n ∉ j.initializing

/-- Two modules are never in order: the first source that is read is in the scopes of both. -/
theorem exists_start_out_of_order {depth m n : Nat} {i : Interp} {s : Store} (hi : i.New)
    (hd : i.pending.length ≤ depth) (hu : ∀ k ∈ i.pending, i.skips s k = false)
    (hm : m ∈ i.pending) (hn : n ∈ i.pending) (hmn : m ≠ n) :
    ∃ k j, Starts depth i s k j s ∧ ¬InOrder i k j s := by
  obtain ⟨k, -, hk⟩ := starts_enterAll hi.inputs rfl hd hm (hu m hm)
  refine ⟨k, _, hk, fun ho => ?_⟩
  have hlen := congrArg List.length ho.scope
  cases hp : i.pending with
  | nil => rw [hp] at hm; cases hm
  | cons p rest =>
    rw [hp] at hm hn hu
    obtain ⟨q, hq, hpq⟩ : ∃ q ∈ rest, p ≠ q := by
      by_cases hpm : p = m
      · refine ⟨n, ?_, hpm ▸ hmn⟩
        exact (List.mem_cons.mp hn).resolve_left fun h => hmn (hpm.symm.trans h.symm)
      · exact ⟨m, (List.mem_cons.mp hm).resolve_left fun h => hpm h.symm, hpm⟩
    have hskip : (i.enterModule p).skips s q = false :=
      Interp.skips_of_enter hpq (hu q (List.mem_cons_of_mem p hq))
    have hlt := Interp.enterAll_scope_length hq hskip
    rw [hp] at hlen
    unfold Interp.enterAll at hlen
    rw [if_neg (by rw [hu p List.mem_cons_self]; decide)] at hlen
    have henter : (i.enterModule p).scope.length = 2 := by
      show (p :: i.scope).length = 2
      rw [hi.scope]
      rfl
    rw [henter, hlen] at hlt
    exact absurd hlt (Nat.lt_irrefl 2)

/-- The sources of the modules that a standard interpreter was made with are run in order, each in
its own scope, if and only if no two of them have to be run. The first source that is read is read
in the scopes of all modules whose sources have to be run, before any of them was. -/
theorem pending_modules_in_order_iff {s t : Store} {settings : Interp.Settings}
    {modules : List Nat} {i : Interp} {depth : Nat}
    (h : Interp.standard s settings modules = .ok (i, t)) (hd : i.pending.length ≤ depth) :
    (∃ core, i.pending = t.unready (core :: modules)) ∧
    ((∀ {m j u}, Starts depth i t m j u → InOrder i m j u) ↔
      ∀ m ∈ i.pending, ∀ n ∈ i.pending, m = n) ∧
    (i.pending ≠ [] → ∃ m, (i.enterAll t i.pending).scope.head? = some m ∧
      Starts depth i t m (i.enterAll t i.pending) t) ∧
    (i.pending.Nodup → (i.enterAll t i.pending).scope = i.pending.reverse ++ [i.app]) := by
  have hi : i.New := (Interp.made_of_standard h).new
  obtain ⟨core, hcore⟩ := Interp.standard_pending h
  have hu := Interp.standard_skips h
  refine ⟨⟨core, hcore⟩, ⟨fun hall m hm n hn => ?_, fun hsame m j u hs => ?_⟩, fun hne => ?_,
    fun hnodup => ?_⟩
  · by_cases hmn : m = n
    · exact hmn
    obtain ⟨k, j, hs, ho⟩ := exists_start_out_of_order hi hd hu hm hn hmn
    exact absurd (hall hs) ho
  · cases hp : i.pending with
    | nil => exact absurd hs (not_starts_of_skips (by rw [hp]; exact nofun))
    | cons p rest =>
      have hall : ∀ k ∈ i.pending, k = p := fun k hk => hsame k hk p (by rw [hp]; simp)
      obtain ⟨rfl, hscope⟩ := starts_alone hi.inputs hall hs
      have hmem : ∀ before after : List Nat, i.pending = before ++ m :: after →
          ∀ n ∈ before ++ m :: after, n = m := fun before after hsplit n hn =>
        hall n (hsplit ▸ hn)
      refine ⟨by rw [hscope, hi.scope], ?_, ?_⟩
      · intro before after hsplit n hn hne
        exact absurd (hmem before after hsplit n (List.mem_append_left _ hn)) hne
      · intro before after hsplit n hn hne
        exact absurd (hmem before after hsplit n
          (List.mem_append_right _ (List.mem_cons_of_mem m hn))) hne
  · obtain ⟨m, hm⟩ := List.exists_mem_of_ne_nil i.pending hne
    exact starts_enterAll hi.inputs rfl hd hm (hu m hm)
  · rw [Interp.enterAll_scope_of_nodup hnodup hu, hi.scope]

/-- Two modules with sources, the second of which uses the first. -/
def Store.withTwoSources : Store :=
  .emptyCore [.new "a" "" ": A 1 ; [\"A\"] EXPORT" false,
    .new "b" "" ": B A ; [\"B\"] EXPORT" false]

theorem exists_two_pending : ∃ i t,
    Interp.standard .withTwoSources .emptyCore [1, 2] = .ok (i, t) ∧ i.pending = [1, 2] := by
  have hmade : ((Interp.standard .withTwoSources .emptyCore [1, 2]).toOption.any fun p =>
      p.1.pending == [1, 2]) = true := by decide +kernel
  obtain ⟨⟨i, t⟩, hmade, hp⟩ := Except.exists_of_any hmade
  exact ⟨i, t, hmade, beq_iff_eq.mp hp⟩

theorem pending_modules_in_order_iff_two : ∃ i t,
    Interp.standard .withTwoSources .emptyCore [1, 2] = .ok (i, t) ∧
    ¬∀ {m j u}, Starts 2 i t m j u → InOrder i m j u := by
  obtain ⟨i, t, hmade, hp⟩ := exists_two_pending
  refine ⟨i, t, hmade, fun hall => ?_⟩
  have hle : i.pending.length ≤ 2 := by rw [hp]; decide
  have hsame := (pending_modules_in_order_iff hmade hle).2.1.mp hall 1 (by rw [hp]; simp) 2
    (by rw [hp]; simp)
  cases hsame

/-- The sources of modules given at construction are not always run in order. -/
theorem pending_modules_may_be_out_of_order :
    ¬ ∀ {s t : Store} {settings : Interp.Settings} {modules : List Nat} {i : Interp}
      {depth m : Nat} {j : Interp} {u : Store},
      Interp.standard s settings modules = .ok (i, t) → Starts depth i t m j u →
      InOrder i m j u := by
  intro hall
  obtain ⟨i, t, hmade, hp⟩ := exists_two_pending
  have hi : i.New := (Interp.made_of_standard hmade).new
  have hu := Interp.standard_skips hmade
  obtain ⟨k, j, hs, ho⟩ := exists_start_out_of_order hi (Nat.le_refl _) hu
    (m := 1) (n := 2) (by rw [hp]; simp) (by rw [hp]; simp) (by decide)
  exact ho (hall hmade hs)

end Wordstack
