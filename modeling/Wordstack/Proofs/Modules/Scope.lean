import Wordstack.Proofs.Runs.Rest

/-!
# The scope around the source of a module

A module is in scope while its source is run; afterwards the innermost module is taken out of scope,
whichever it is by then.

- **Roots** (`Interp.Rooted`): the outermost module is in scope, at the bottom. This survives every
  change that leaves no module but for one of two at least (`rooted_invariant`).
- **Blocks kept** (`keepsBlock`): a machine that gives up when the source of a module closes the
  module's own block.
- **Balance** (`initializeModule_scope`): when the scope is as it was before.
-/

namespace Wordstack

namespace Interp

/-- The outermost module is the outermost one in scope. -/
def Rooted (i : Interp) : Prop := i.scope.getLast? = some i.app

variable {i : Interp}

theorem New.rooted (h : i.New) : i.Rooted := by
  unfold Rooted
  rw [h.scope]
  rfl

theorem Rooted.enter (h : i.Rooted) (m : Nat) : Rooted { i with scope := m :: i.scope } := by
  unfold Rooted at h ⊢
  rw [List.getLast?_cons, h]
  rfl

/-- Out of two modules in scope at least one stays. -/
theorem Rooted.leave_iff (h : i.Rooted) :
    Rooted { i with scope := i.scope.tail } ↔ 2 ≤ i.scope.length := by
  unfold Rooted at h ⊢
  show i.scope.tail.getLast? = some i.app ↔ _
  cases hs : i.scope with
  | nil => rw [hs] at h; cases h
  | cons m rest =>
    rw [hs] at h
    cases rest with
    | nil => simp
    | cons n rest =>
      rw [List.getLast?_cons_cons] at h
      simp [h]

theorem Rooted.failRun {k : Interp} (hi : i.Rooted) (hk : k.Rooted) :
    (k.failRun i.transient).Rooted := by
  unfold Rooted at hi hk ⊢
  show (outermost i.scope.length k.scope).getLast? = some k.app
  have hi' : i.scope ≠ [] := fun h => by rw [h] at hi; cases hi
  have hk' : k.scope ≠ [] := fun h => by rw [h] at hk; cases hk
  have := List.length_pos_iff.mpr hi'
  have := List.length_pos_iff.mpr hk'
  unfold outermost
  rw [List.getLast?_drop, if_neg (by omega), hk]

theorem rooted_invariant : Invariant 2 Rooted := by
  refine ⟨fun {i j} hi hc => ?_, fun _ hi => hi, fun hi _ => hi, fun hi hk _ => hi.failRun hk⟩
  cases hc with
  | enter m => exact hi.enter m
  | leave h => exact hi.leave_iff.mpr h
  | _ => exact hi

end Interp

/-! ## Blocks kept -/

/-- The rule that the source of a module does not close the block of its module. Only the sources of
modules have a name. -/
def keepsBlock (_ : Interp) (origin : Location) (_ : Except Fault Unit) (after : Interp) : Bool :=
  origin.source.isNone || 2 ≤ after.scope.length

/-- The likeness of an interpreter to itself while the outermost module is in scope. -/
def Likeness.rooted (i : Interp) : Likeness :=
  { inputs := i.inputs, pending := i.pending.length, floor := 2, holds := Interp.Rooted }

section Rooted

variable {depth m : Nat} {i j : Interp} {s t u : Store} {r : Result Unit}

theorem Likeness.rooted_sound (i : Interp) : (Likeness.rooted i).Sound :=
  ⟨fun _ => rfl, rfl, nofun, nofun, Nat.le_refl 2, Interp.rooted_invariant, nofun⟩

theorem Likeness.rooted_self (hi : i.Rooted) : (Likeness.rooted i).Interps i i :=
  Likeness.Fits.self ⟨(List.append_nil i.inputs).symm, Nat.le_refl _, hi, nofun⟩ rfl

theorem Nested.Alike.keepsBlock (i : Interp) (depth : Nat) :
    Nested.Alike (.rooted i) (Wordstack.watched keepsBlock depth) (nested depth) := by
  refine .watched (Likeness.rooted_sound i) rfl ?_ depth
  intro before origin outcome after hrule ho
  unfold Wordstack.keepsBlock at hrule
  rw [Option.isNone_eq_false_iff.mpr ho, Bool.false_or] at hrule
  exact of_decide_eq_true hrule

/-- A call that keeps the blocks of modules keeps the outermost module in scope, and the machine
itself ends it the same way. -/
theorem Call.keepsBlock (c : Call) (hi : i.Rooted) (hs : s.Alike t)
    (h : (c.task (watched keepsBlock depth)).finish i s = .ended r j u) (hr : r ≠ .exhausted) :
    j.Rooted ∧ ∃ v, (c.task (nested depth)).finish i t = .ended r j v ∧ u.Alike v := by
  have hL := Likeness.rooted_sound i
  have hend := (c.alike hL (.keepsBlock i depth) .rfl).finish (Likeness.rooted_self hi)
    (Likeness.Stores.of_alike hs rfl nofun)
  rw [h] at hend
  obtain ⟨v, hv, huv, hfits⟩ := hend.ended hL rfl hr
  exact ⟨hfits.holds, v, hv, huv.alike rfl⟩

theorem Calls.keepsBlock (h : Calls (watched keepsBlock depth) i s j t) (hi : i.Rooted) :
    j.Rooted ∧ ∃ v, Calls (nested depth) i s j v ∧ t.Alike v := by
  induction h with
  | start => exact ⟨hi, s, .start, .refl s⟩
  | call c _ hc hr ih =>
    obtain ⟨hj, v, hv, htv⟩ := ih
    obtain ⟨hk, w, hw, huw⟩ := c.keepsBlock hj htv hc hr
    exact ⟨hk, w, .call c hv hw hr, huw⟩

end Rooted

/-! ## Balance -/

/-- The scope after a module was initialized, beside the scope `i` had before. It was run in that
scope with the module on top, and one module was taken away afterwards. -/
inductive ScopeAfter (depth m : Nat) (i : Interp) (s : Store) : Result Unit → Interp → Prop
  | skipped (h : ((s.module m).isReady || i.initializing.contains m) = true) :
      ScopeAfter depth m i s (.ok ()) i
  /-- The source has to leave the scope one module higher than it was, whichever module that is. -/
  | ready {n : Nat} {j k : Interp} {u : Store} (hd : depth = n + 1)
      (h : (runSource (nested n) (s.module m).source (s.module m).origin).finish
        (i.enterModule m) s = .ended (.ok ()) k u)
      (hj : j.scope = i.scope ↔ ∃ x, k.scope = x :: i.scope) :
      ScopeAfter depth m i s (.ok ()) j
  /-- Blocks that a source has opened when it fails are closed for it. -/
  | failed {n : Nat} {j k : Interp} {u : Store} {f g : Fault} (hd : depth = n + 1)
      (h : (runSource (nested n) (s.module m).source (s.module m).origin).finish
        (i.enterModule m) s = .ended (.fault g) k u)
      (hj : j.scope = i.scope ↔ ∃ x, k.scope = x :: i.scope)
      (hfail : (i.inputs = [] → i.pending = []) → ∃ l,
        Task.FailsAt (nested n) i.inputs.isEmpty
          (Scanner.start (s.module m).source (s.module m).origin) (i.enterModule m) s g l u ∧
        (j.scope = i.scope ↔ ∃ x, x :: i.scope <:+ l.scope)) :
      ScopeAfter depth m i s (.fault f) j

theorem tail_eq_iff {α : Type} {xs ys : List α} (hy : ys ≠ []) :
    xs.tail = ys ↔ ∃ x, xs = x :: ys := by
  constructor
  · rintro rfl
    cases xs with
    | nil => exact absurd rfl hy
    | cons x xs => exact ⟨x, rfl⟩
  · rintro ⟨x, rfl⟩
    rfl

/-- Cutting back to one more than there were leaves them under another one. -/
theorem outermost_eq_cons_iff {α : Type} {xs ys : List α} :
    (∃ x, Interp.outermost (ys.length + 1) xs = x :: ys) ↔ ∃ x, x :: ys <:+ xs := by
  constructor
  · rintro ⟨x, hx⟩
    exact ⟨x, hx ▸ List.drop_suffix _ _⟩
  · rintro ⟨x, above, rfl⟩
    refine ⟨x, ?_⟩
    unfold Interp.outermost
    rw [List.length_append, List.length_cons, Nat.add_sub_cancel, List.drop_left]

theorem initializeModule_scopeAfter {depth m : Nat} {i j : Interp} {s t : Store} {r : Result Unit}
    (hi : i.scope ≠ []) (h : (initializeModule (nested depth) m).finish i s = .ended r j t)
    (hr : r ≠ .exhausted) : ScopeAfter depth m i s r j := by
  by_cases hskip : ((s.module m).isReady || i.initializing.contains m) = true
  · rw [finish_initializeModule_skipped hskip] at h
    cases h
    exact .skipped hskip
  rw [finish_initializeModule (by simpa using hskip)] at h
  cases depth with
  | zero => cases h; exact absurd rfl hr
  | succ depth =>
    rcases Outcome.of_attempt_bind h hr with ⟨_, k, u, hx, h⟩ | ⟨g, k, u, hx, h⟩
    · cases h
      exact .ready rfl hx (tail_eq_iff hi)
    · cases h
      refine .failed rfl hx (tail_eq_iff hi) fun hnil => ?_
      rcases finish_runSource_fault hx with ⟨i₀, s₀, l, hb, hl, rfl⟩ | ⟨hin, hp⟩
      · obtain ⟨rfl, rfl⟩ := hb.eq hnil
        exact ⟨l, hl, (tail_eq_iff hi).trans outermost_eq_cons_iff⟩
      · have hpending : (i.enterModule m).pending = [] := hnil hin
        rw [finish_initializePending_nil hpending] at hp
        cases hp

/-- A module that is initialized leaves the scope as it was exactly where its source leaves it one
module higher. As long as no source of a module closes the block of its module, the outermost module
stays in scope at the bottom through all calls; where one does, it does not. -/
theorem scope_of_initialized_modules {depth : Nat} {i : Interp} {s : Store} (hi : i.Rooted) :
    (∀ {m r j t}, (initializeModule (nested depth) m).finish i s = .ended r j t →
      r ≠ .exhausted → ScopeAfter depth m i s r j) ∧
    (∀ {j t}, Calls (watched keepsBlock depth) i s j t →
      j.Rooted ∧ ∃ u, Calls (nested depth) i s j u ∧ t.Alike u) ∧
    (∀ {m source origin r k t},
      (runSource (watched keepsBlock depth) source origin).finish (i.enterModule m) s =
        .ended r k t → r ≠ .exhausted →
      ((k.leaveModule m).Rooted ↔ 2 ≤ k.scope.length)) := by
  refine ⟨fun h hr => initializeModule_scopeAfter ?_ h hr, fun h => h.keepsBlock hi, ?_⟩
  · intro hnil
    unfold Interp.Rooted at hi
    rw [hnil] at hi
    cases hi
  · intro m source origin r k t h hr
    have hm : (i.enterModule m).Rooted := hi.enter m
    exact (Call.keepsBlock (.run source origin) hm (.refl s) h hr).1.leave_iff

/-- A store with a module whose source closes the block of the module. -/
def Store.withClosingModule : Store :=
  { Store.blank with modules := #[{ name := "" }, .new "m" "" "\x7d" false] }

theorem exists_scope_lost : ∃ j t,
    (initializeModule (nested 1) 1).finish .blank .withClosingModule = .ended (.ok ()) j t ∧
    j.scope = [] := by
  have hrun : ((initializeModule (nested 1) 1).finish .blank .withClosingModule).isOk
      (fun j _ => j.scope == []) = true := by decide +kernel
  obtain ⟨j, t, h, hscope⟩ := Outcome.exists_of_isOk hrun
  exact ⟨j, t, h, beq_iff_eq.mp hscope⟩

theorem scope_of_initialized_closing_module : ∃ j t,
    (initializeModule (nested 1) 1).finish .blank .withClosingModule = .ended (.ok ()) j t ∧
    ScopeAfter 1 1 .blank .withClosingModule (.ok ()) j := by
  obtain ⟨j, t, h, -⟩ := exists_scope_lost
  exact ⟨j, t, h, (scope_of_initialized_modules Interp.blank_new.rooted).1 h Result.ok_ne_exhausted⟩

/-- A source may take the outermost module out of scope. -/
theorem initialized_module_may_lose_scope :
    ¬ ∀ {depth m : Nat} {i j : Interp} {s t : Store} {r : Result Unit}, i.Rooted →
      (initializeModule (nested depth) m).finish i s = .ended r j t → r ≠ .exhausted →
      j.scope = i.scope ∧ j.Rooted := by
  intro hall
  obtain ⟨j, t, h, hj⟩ := exists_scope_lost
  have hscope := (hall Interp.blank_new.rooted h Result.ok_ne_exhausted).1
  rw [hj] at hscope
  cases hscope

end Wordstack
