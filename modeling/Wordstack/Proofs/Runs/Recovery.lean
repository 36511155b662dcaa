import Wordstack.Proofs.Runs.Runless
import Wordstack.Proofs.Runs.Tokens
import Wordstack.Proofs.Source.Lines

/-!
# Recovery

A run with a handler reads on behind whatever fails, until there are too many failures.

- **What was read** (`TokenStep`): a token or a failure, and what became of it.
- **Steps** (`Resumes`) and **ways** (`Recovers`): a step reads once, handles the token, and calls
  the handler once if that fails. Compile state, brackets and everything else stay as they are then.
- **Ends** (`Recovered`, `GivesUp`): the end of the source is handled, or there are as many failures
  as attempts are allowed.
- **The loop** (`Recovered.finish`, `GivesUp.finish`, `recovered_or_givesUp`): it ends so and in no
  other way, if the handler always ends.
- **The end of the source** (`Scanner.AtEnd.givesUp`) fails again and again while a definition is
  open.
- **Runs** (`run_recovers`).
-/

namespace Wordstack

/-! ## What was read -/

/-- One step of reading: a token that is handled, one whose handling fails, or a failure to read. -/
inductive TokenStep where
  | handled (t : Token)
  | dropped (t : Token) (f : Fault)
  | unread (f : Fault)

namespace TokenStep

/-- What was read. -/
def read : TokenStep → Except Fault Token
  | handled t | dropped t _ => .ok t
  | unread f => .error f

/-- The failure that the handler is called with. -/
def failure? : TokenStep → Option Fault
  | handled _ => none
  | dropped _ f | unread f => some f

/-- The failures in order. -/
def failures (rs : List TokenStep) : List Fault := rs.filterMap failure?

@[simp] theorem failures_nil : failures [] = [] := rfl

theorem failures_cons_none {r : TokenStep} (h : r.failure? = none) (rs : List TokenStep) :
    failures (r :: rs) = failures rs :=
  List.filterMap_cons_none h

theorem failures_cons_some {r : TokenStep} {f : Fault} (h : r.failure? = some f)
    (rs : List TokenStep) : failures (r :: rs) = f :: failures rs :=
  List.filterMap_cons_some h

end TokenStep

namespace Scanner

/-- What the first `n` readings give. -/
def readings : Nat → Scanner → List (Except Fault Token)
  | 0, _ => []
  | n + 1, sc => sc.next.1 :: readings n sc.next.2

/-- The scanner after `n` readings. -/
def skip : Nat → Scanner → Scanner
  | 0, sc => sc
  | n + 1, sc => skip n sc.next.2

/-- The next reading is the end of the source. -/
def AtEnd (sc : Scanner) : Prop := ∃ t sc', sc.next = (.ok t, sc') ∧ t.kind = .eos

/-- The end of the source is read again and again. -/
theorem next_atEnd {sc sc' : Scanner} {t : Token} (h : sc.next = (.ok t, sc'))
    (hk : t.kind = .eos) : sc'.AtEnd := by
  obtain ⟨l, rest, hl, rfl, rfl⟩ := exists_of_next h
  have hrest : ∀ {cs text rest : List Char}, Lexes cs .eos text rest → rest = [] :=
    fun h => by cases h; rfl
  have hlexes := lexed_iff.mp (lexed_of_lex hl)
  rw [show l.kind = .eos from hk] at hlexes
  exact next_nil (hrest hlexes)

end Scanner

/-! ## Steps -/

/-- One step of reading with the handler `h`. A token is handled and noted as the latest one; if it
cannot be read or handled, the handler completes where that has come to. -/
inductive Resumes (e : Nested) (h : Handler) :
    TokenStep → Scanner → Interp → Store → Scanner → Interp → Store → Prop
  | handled {t : Token} {sc sc' : Scanner} {i j : Interp} {s u : Store}
      (hn : sc.next = (.ok t, sc')) (hk : t.kind ≠ .eos)
      (ht : (handleToken e t).finish i s = .ended (.ok ()) j u) :
      Resumes e h (.handled t) sc i s sc' (j.moved j.inputs j.call (some t.location)) u
  | dropped {t : Token} {f : Fault} {sc sc' : Scanner} {i j k : Interp} {s u v : Store}
      (hn : sc.next = (.ok t, sc')) (ht : (handleToken e t).finish i s = .ended (.fault f) j u)
      (hh : (perform e (h f)).finish j u = .ended (.ok ()) k v) :
      Resumes e h (.dropped t f) sc i s sc' k v
  | unread {f : Fault} {sc sc' : Scanner} {i j : Interp} {s u : Store}
      (hn : sc.next = (.error f, sc')) (hh : (perform e (h f)).finish i s = .ended (.ok ()) j u) :
      Resumes e h (.unread f) sc i s sc' j u

/-- Steps of reading, each from where the one before it has come to. -/
inductive Recovers (e : Nested) (h : Handler) :
    List TokenStep → Scanner → Interp → Store → Scanner → Interp → Store → Prop
  | nil {sc : Scanner} {i : Interp} {s : Store} : Recovers e h [] sc i s sc i s
  | cons {r : TokenStep} {rs : List TokenStep} {sc sc₁ sc' : Scanner} {i i₁ j : Interp}
      {s s₁ u : Store} (hr : Resumes e h r sc i s sc₁ i₁ s₁)
      (hrs : Recovers e h rs sc₁ i₁ s₁ sc' j u) : Recovers e h (r :: rs) sc i s sc' j u

/-- The end of the source is handled after less than `m` failures. -/
inductive Recovered (e : Nested) (h : Handler) (m : Nat) (sc : Scanner) (i : Interp) (s : Store) :
    Interp → Store → Prop
  | intro {rs : List TokenStep} {sc₁ sc' : Scanner} {i₁ j : Interp} {s₁ u : Store} {t : Token}
      (hrs : Recovers e h rs sc i s sc₁ i₁ s₁) (hm : (TokenStep.failures rs).length < m)
      (hn : sc₁.next = (.ok t, sc')) (hk : t.kind = .eos)
      (ht : (handleToken e t).finish i₁ s₁ = .ended (.ok ()) j u) :
      Recovered e h m sc i s (j.moved j.inputs j.call (some t.location)) u

/-- The step that was made last is the `m`-th one that failed. -/
inductive GivesUp (e : Nested) (h : Handler) (m : Nat) (sc : Scanner) (i : Interp) (s : Store) :
    Interp → Store → Prop
  | intro {rs : List TokenStep} {r : TokenStep} {f : Fault} {sc₁ sc' : Scanner} {i₁ j : Interp}
      {s₁ u : Store} (hrs : Recovers e h rs sc i s sc₁ i₁ s₁)
      (hm : (TokenStep.failures rs).length + 1 = m) (hf : r.failure? = some f)
      (hr : Resumes e h r sc₁ i₁ s₁ sc' j u) : GivesUp e h m sc i s j u

section Steps

variable {e : Nested} {h : Handler} {r : TokenStep} {rs : List TokenStep} {sc sc₁ sc' : Scanner}
  {i i₁ j : Interp} {s s₁ u : Store} {m : Nat}

theorem Resumes.next (hr : Resumes e h r sc i s sc' j u) : sc.next = (r.read, sc') := by
  cases hr <;> assumption

theorem Recovers.concat (hrs : Recovers e h rs sc i s sc₁ i₁ s₁)
    (hr : Resumes e h r sc₁ i₁ s₁ sc' j u) : Recovers e h (rs ++ [r]) sc i s sc' j u := by
  induction hrs with
  | nil => exact .cons hr .nil
  | cons hr' _ ih => exact .cons hr' (ih hr)

/-- Everything is read once and in order. -/
theorem Recovers.readings (hrs : Recovers e h rs sc i s sc' j u) :
    rs.map TokenStep.read = sc.readings rs.length ∧ sc' = sc.skip rs.length := by
  induction hrs with
  | nil => exact ⟨rfl, rfl⟩
  | cons hr _ ih =>
    obtain ⟨hread, hskip⟩ := ih
    rw [List.map_cons, List.length_cons, Scanner.readings, Scanner.skip, hr.next]
    exact ⟨congrArg (_ :: ·) hread, hskip⟩

theorem Recovered.cons (hr : Resumes e h r sc i s sc₁ i₁ s₁) (hf : r.failure? = none)
    (hd : Recovered e h m sc₁ i₁ s₁ j u) : Recovered e h m sc i s j u := by
  obtain ⟨hrs, hm, hn, hk, ht⟩ := hd
  exact ⟨.cons hr hrs, by rwa [TokenStep.failures_cons_none hf], hn, hk, ht⟩

theorem Recovered.cons_failure {f : Fault} (hr : Resumes e h r sc i s sc₁ i₁ s₁)
    (hf : r.failure? = some f) (hd : Recovered e h m sc₁ i₁ s₁ j u) :
    Recovered e h (m + 1) sc i s j u := by
  obtain ⟨hrs, hm, hn, hk, ht⟩ := hd
  refine ⟨.cons hr hrs, ?_, hn, hk, ht⟩
  rw [TokenStep.failures_cons_some hf, List.length_cons]
  omega

theorem GivesUp.cons (hr : Resumes e h r sc i s sc₁ i₁ s₁) (hf : r.failure? = none)
    (hg : GivesUp e h m sc₁ i₁ s₁ j u) : GivesUp e h m sc i s j u := by
  obtain ⟨hrs, hm, hf', hr'⟩ := hg
  exact ⟨.cons hr hrs, by rwa [TokenStep.failures_cons_none hf], hf', hr'⟩

theorem GivesUp.cons_failure {f : Fault} (hr : Resumes e h r sc i s sc₁ i₁ s₁)
    (hf : r.failure? = some f) (hg : GivesUp e h m sc₁ i₁ s₁ j u) :
    GivesUp e h (m + 1) sc i s j u := by
  obtain ⟨hrs, hm, hf', hr'⟩ := hg
  refine ⟨.cons hr hrs, ?_, hf', hr'⟩
  rw [TokenStep.failures_cons_some hf, List.length_cons, hm]

end Steps

/-! ## What steps keep -/

/-- The handler of runs and the number of their attempts are set from outside. -/
theorem Interp.recovery_settings_invariant (floor : Nat) (recovery : Option Handler)
    (limit : Binary64) :
    Invariant floor fun i => i.recovery = recovery ∧ i.maxAttempts = limit :=
  ⟨fun h hc => by cases hc <;> exact h, fun _ h => h, fun h _ => h, fun _ h _ => h⟩

section Keeping

variable {depth : Nat} {h : Handler} {holds : Interp → Prop} {r : TokenStep} {rs : List TokenStep}
  {sc sc' : Scanner} {i j : Interp} {s u : Store}

theorem Resumes.keeps (hinv : Invariant 0 holds) (hi : holds i) (hin : i.inputs ≠ [])
    (hr : Resumes (nested depth) h r sc i s sc' j u) : j.inputs = i.inputs ∧ holds j := by
  cases hr with
  | handled _ _ ht =>
    obtain ⟨hinputs, hj⟩ := finish_handleToken_keeps hinv hi hin ht Result.ok_ne_exhausted
    exact ⟨hinputs, hinv.change hj (.place ..)⟩
  | dropped _ ht hh =>
    obtain ⟨hinputs, hj⟩ := finish_handleToken_keeps hinv hi hin ht Result.fault_ne_exhausted
    obtain ⟨hinputs', hk⟩ := finish_perform_keeps hinv hj hh Result.ok_ne_exhausted
    exact ⟨hinputs'.trans hinputs, hk⟩
  | unread _ hh => exact finish_perform_keeps hinv hi hh Result.ok_ne_exhausted

theorem Recovers.keeps (hinv : Invariant 0 holds) (hi : holds i) (hin : i.inputs ≠ [])
    (hrs : Recovers (nested depth) h rs sc i s sc' j u) : j.inputs = i.inputs ∧ holds j := by
  induction hrs with
  | nil => exact ⟨rfl, hi⟩
  | cons hr _ ih =>
    obtain ⟨hinputs, hi₁⟩ := hr.keeps hinv hi hin
    obtain ⟨hinputs', hj⟩ := ih hi₁ (hinputs ▸ hin)
    exact ⟨hinputs'.trans hinputs, hj⟩

theorem GivesUp.keeps {m : Nat} (hinv : Invariant 0 holds) (hi : holds i) (hin : i.inputs ≠ [])
    (hg : GivesUp (nested depth) h m sc i s j u) : holds j := by
  obtain ⟨hrs, -, -, hr⟩ := hg
  exact ((hrs.concat hr).keeps hinv hi hin).2

end Keeping

/-! ## The loop -/

/-- The loop once tokens were handled up to the end of the source or to a failure. -/
def finishReadings (e : Nested) (h : Handler) (left used : Nat) :
    Option (Fault × Scanner) → Interp → Store → Outcome Unit
  | none, i, s => .ended (.ok ()) i s
  | some (f, sc), i, s =>
    ((perform e (h f)).finish i s).bind fun _ i s =>
      (runRecovering e h left (used + 1) sc).finish i s

section Loop

variable {e : Nested} {h : Handler} {sc sc₁ sc' : Scanner} {i i₁ j : Interp} {s s₁ u : Store}
  {t : Token} {f : Fault} {left used : Nat}

/-- Any bound above the number of characters will do. -/
theorem runTokens_bound {bound bound' : Nat} (hb : sc.rest.length < bound)
    (hb' : sc.rest.length < bound') : runTokens e bound sc = runTokens e bound' sc := by
  induction bound generalizing sc bound' with
  | zero => omega
  | succ bound ih =>
    obtain ⟨bound', rfl⟩ : ∃ n, bound' = n + 1 := ⟨bound' - 1, by omega⟩
    unfold runTokens
    cases hn : sc.next with
    | mk o sc' =>
      cases o with
      | error f => rfl
      | ok t =>
        by_cases hk : t.kind = .eos
        · simp only [if_pos hk]
        · have hlt := Scanner.rest_lt hn hk
          have hsame : runTokens e bound sc' = runTokens e bound' sc' := ih (by omega) (by omega)
          simp only [hsame]

theorem finish_runAllTokens_unread (hn : sc.next = (.error f, sc')) :
    (runAllTokens e sc).finish i s = .ended (.ok (some (f, sc'))) i s := by
  rw [runAllTokens, runTokens, hn]
  rfl

theorem finish_runAllTokens_fault (hn : sc.next = (.ok t, sc'))
    (ht : (handleToken e t).finish i s = .ended (.fault f) j u) :
    (runAllTokens e sc).finish i s = .ended (.ok (some (f, sc'))) j u := by
  rw [runAllTokens, finish_runTokens_next hn, ht]
  rfl

theorem finish_runAllTokens_handled (hn : sc.next = (.ok t, sc')) (hk : t.kind ≠ .eos)
    (ht : (handleToken e t).finish i s = .ended (.ok ()) j u) :
    (runAllTokens e sc).finish i s =
      (runAllTokens e sc').finish (j.moved j.inputs j.call (some t.location)) u := by
  rw [runAllTokens, finish_runTokens_next hn, ht, Outcome.attempt_ok, Outcome.bind_ok, finishToken,
    if_neg hk, runTokens_bound (Scanner.rest_lt hn hk) (Nat.lt_succ_self _)]
  rfl

theorem finish_runAllTokens_eos (hn : sc.next = (.ok t, sc')) (hk : t.kind = .eos)
    (ht : (handleToken e t).finish i s = .ended (.ok ()) j u) :
    (runAllTokens e sc).finish i s =
      .ended (.ok none) (j.moved j.inputs j.call (some t.location)) u := by
  rw [runAllTokens, finish_runTokens_next hn, ht, Outcome.attempt_ok, Outcome.bind_ok, finishToken,
    if_pos hk]
  rfl

theorem finish_runRecovering_zero :
    (runRecovering e h 0 used sc).finish i s =
      .ended (.fault (.tooManyAttempts i.topInput (.ofInt (used + 1 : Nat)) i.maxAttempts))
        i s := by
  rw [runRecovering]
  rfl

theorem finish_runRecovering_succ :
    (runRecovering e h (left + 1) used sc).finish i s =
      ((runAllTokens e sc).finish i s).bind (finishReadings e h left used) := by
  rw [runRecovering, Task.finish_bind, Task.finish_call]
  refine congrArg (Outcome.bind _) (funext fun stopped => ?_)
  cases stopped with
  | none => rfl
  | some stopped =>
    funext i s
    exact (Task.finish_bind ..).trans (by rw [Task.finish_callCode]; rfl)

theorem Resumes.rest_lt {r : TokenStep} (hr : Resumes e h r sc i s sc₁ i₁ s₁)
    (hf : r.failure? = none) : sc₁.rest.length < sc.rest.length := by
  cases hr with
  | handled hn hk => exact Scanner.rest_lt hn hk
  | dropped | unread => cases hf

/-- A step that does not fail leaves the attempts as they are. -/
theorem Resumes.finish_handled {r : TokenStep} (hr : Resumes e h r sc i s sc₁ i₁ s₁)
    (hf : r.failure? = none) :
    (runRecovering e h (left + 1) used sc).finish i s =
      (runRecovering e h (left + 1) used sc₁).finish i₁ s₁ := by
  cases hr with
  | handled hn hk ht =>
    rw [finish_runRecovering_succ, finish_runAllTokens_handled hn hk ht, finish_runRecovering_succ]
  | dropped | unread => cases hf

/-- A step that fails takes one attempt. -/
theorem Resumes.finish_failure {r : TokenStep} (hr : Resumes e h r sc i s sc₁ i₁ s₁)
    (hf : r.failure? = some f) :
    (runRecovering e h (left + 1) used sc).finish i s =
      (runRecovering e h left (used + 1) sc₁).finish i₁ s₁ := by
  cases hr with
  | handled => cases hf
  | dropped hn ht hh =>
    rw [finish_runRecovering_succ, finish_runAllTokens_fault hn ht, Outcome.bind_ok, finishReadings,
      hh, Outcome.bind_ok]
  | unread hn hh =>
    rw [finish_runRecovering_succ, finish_runAllTokens_unread hn, Outcome.bind_ok, finishReadings,
      hh, Outcome.bind_ok]

/-- The loop goes on where steps have come to, with the attempts that they have left. -/
theorem Recovers.finish {rs : List TokenStep} (hrs : Recovers e h rs sc i s sc₁ i₁ s₁)
    (left used : Nat) :
    (runRecovering e h ((TokenStep.failures rs).length + left + 1) used sc).finish i s =
      (runRecovering e h (left + 1) (used + (TokenStep.failures rs).length) sc₁).finish i₁ s₁ := by
  induction hrs generalizing used with
  | nil => simp only [TokenStep.failures_nil, List.length_nil, Nat.zero_add, Nat.add_zero]
  | @cons r rs _ _ _ _ _ _ _ _ _ hr _ ih =>
    cases hf : r.failure? with
    | none => rw [TokenStep.failures_cons_none hf, hr.finish_handled hf, ih]
    | some f =>
      rw [TokenStep.failures_cons_some hf, List.length_cons, Nat.add_right_comm _ 1 left,
        hr.finish_failure hf, ih, Nat.add_assoc used 1, Nat.add_comm 1]

theorem Recovered.finish (hd : Recovered e h left sc i s j u) :
    (runRecovering e h left used sc).finish i s = .ended (.ok ()) j u := by
  obtain ⟨hrs, hm, hn, hk, ht⟩ := hd
  obtain ⟨n, rfl⟩ := Nat.exists_eq_add_of_lt hm
  rw [hrs.finish, finish_runRecovering_succ, finish_runAllTokens_eos hn hk ht]
  rfl

theorem GivesUp.finish (hg : GivesUp e h left sc i s j u) :
    (runRecovering e h left used sc).finish i s =
      .ended (.fault (.tooManyAttempts j.topInput (.ofInt (used + left + 1 : Nat)) j.maxAttempts))
        j u := by
  obtain ⟨hrs, rfl, hf, hr⟩ := hg
  have hend := hrs.finish 0 used
  rw [hr.finish_failure hf, finish_runRecovering_zero] at hend
  exact hend

theorem Recovered.mono {m n : Nat} (hd : Recovered e h m sc i s j u) (hmn : m ≤ n) :
    Recovered e h n sc i s j u := by
  obtain ⟨hrs, hm, hn, hk, ht⟩ := hd
  exact ⟨hrs, Nat.lt_of_lt_of_le hm hmn, hn, hk, ht⟩

variable {o : Result Unit}

/-- A loop that ends with attempts left is at the end of the source, or makes a step. -/
theorem exists_resumes (hh : ∀ f i s, ∃ j t, (perform e (h f)).finish i s = .ended (.ok ()) j t)
    (hx : (runRecovering e h (left + 1) used sc).finish i s = .ended o j u) (ho : o ≠ .exhausted) :
    o = .ok () ∧ Recovered e h 1 sc i s j u ∨
      ∃ r sc₁ i₁ s₁, Resumes e h r sc i s sc₁ i₁ s₁ := by
  cases hn : sc.next with
  | mk read sc₁ =>
    cases read with
    | error f =>
      obtain ⟨i₁, s₁, hf⟩ := hh f i s
      exact .inr ⟨_, _, _, _, .unread hn hf⟩
    | ok t =>
      cases ht : (handleToken e t).finish i s with
      | hung v =>
        rw [finish_runRecovering_succ, runAllTokens, finish_runTokens_next hn, ht] at hx
        cases hx
      | ended r k v =>
        cases r with
        | exhausted =>
          rw [finish_runRecovering_succ, runAllTokens, finish_runTokens_next hn, ht] at hx
          cases hx
          exact absurd rfl ho
        | fault f =>
          obtain ⟨i₁, s₁, hf⟩ := hh f k v
          exact .inr ⟨_, _, _, _, .dropped hn ht hf⟩
        | ok =>
          by_cases hk : t.kind = .eos
          · rw [finish_runRecovering_succ, finish_runAllTokens_eos hn hk ht] at hx
            cases hx
            exact .inl ⟨rfl, .nil, Nat.one_pos, hn, hk, ht⟩
          · exact .inr ⟨_, _, _, _, .handled hn hk ht⟩

/-- Every end of the loop, by recursion on the attempts and on the characters that are left. -/
theorem recovered_or_givesUp {left used : Nat} {sc : Scanner} {i : Interp} {s : Store}
    (hh : ∀ f i s, ∃ j t, (perform e (h f)).finish i s = .ended (.ok ()) j t)
    (hx : (runRecovering e h (left + 1) used sc).finish i s = .ended o j u) (ho : o ≠ .exhausted) :
    o = .ok () ∧ Recovered e h (left + 1) sc i s j u ∨
      (∃ f, o = .fault f) ∧ GivesUp e h (left + 1) sc i s j u := by
  obtain ⟨rfl, hd⟩ | ⟨r, sc₁, i₁, s₁, hr⟩ := exists_resumes hh hx ho
  · exact .inl ⟨rfl, hd.mono (Nat.le_add_left 1 left)⟩
  cases hf : r.failure? with
  | none =>
    rw [hr.finish_handled hf] at hx
    have hlt := hr.rest_lt hf
    obtain ⟨ho, hd⟩ | ⟨ho, hg⟩ := recovered_or_givesUp hh hx ho
    · exact .inl ⟨ho, hd.cons hr hf⟩
    · exact .inr ⟨ho, hg.cons hr hf⟩
  | some f =>
    rw [hr.finish_failure hf] at hx
    cases left with
    | zero =>
      rw [finish_runRecovering_zero] at hx
      cases hx
      exact .inr ⟨⟨_, rfl⟩, .nil, rfl, hf, hr⟩
    | succ left =>
      obtain ⟨ho, hd⟩ | ⟨ho, hg⟩ := recovered_or_givesUp hh hx ho
      · exact .inl ⟨ho, hd.cons_failure hr hf⟩
      · exact .inr ⟨ho, hg.cons_failure hr hf⟩
termination_by (left, sc.rest.length)

end Loop

/-! ## The end of the source -/

section AtEnd

variable {e : Nested} {h : Handler} {depth m : Nat} {sc sc₁ : Scanner} {i i₁ j : Interp}
  {s s₁ u : Store}

theorem finish_handleToken_open {t : Token} (hk : t.kind = .eos) (hc : i.compiling = true) :
    (handleToken e t).finish i s =
      .ended (.fault (.missingSemicolon i.topInput (i.previous.or (some t.location)))) i s := by
  unfold handleToken
  rw [hk]
  simp only [Task.finish_bind, Task.finish_interp, Outcome.bind_ok, if_pos hc]
  rfl

/-- At the end of the source every step fails while a definition is open, which the handler does not
close. -/
theorem Scanner.AtEnd.exists_resumes (hend : sc.AtEnd) (ho : i.compiling = true)
    (hc : h.Completes (nested depth)) (s : Store) : ∃ r f sc' j u,
    Resumes (nested depth) h r sc i s sc' j u ∧ r.failure? = some f ∧ sc'.AtEnd ∧
      j.compiling = true := by
  obtain ⟨t, sc', hn, hk⟩ := hend
  obtain ⟨j, u, hh, hj⟩ :=
    hc.finish (.missingSemicolon i.topInput (i.previous.or (some t.location))) i s
  exact ⟨_, _, sc', j, u, .dropped hn (finish_handleToken_open hk ho) hh, rfl,
    Scanner.next_atEnd hn hk, (congrArg Prod.fst hj).trans ho⟩

theorem Scanner.AtEnd.givesUp (hend : sc.AtEnd) (ho : i.compiling = true)
    (hc : h.Completes (nested depth)) (m : Nat) (s : Store) :
    ∃ j u, GivesUp (nested depth) h (m + 1) sc i s j u := by
  induction m generalizing sc i s with
  | zero =>
    obtain ⟨r, f, sc', j, u, hr, hf, -, -⟩ := hend.exists_resumes ho hc s
    exact ⟨j, u, .nil, rfl, hf, hr⟩
  | succ m ih =>
    obtain ⟨r, f, sc', j, u, hr, hf, hend, ho⟩ := hend.exists_resumes ho hc s
    obtain ⟨k, v, hg⟩ := ih hend ho u
    exact ⟨k, v, hg.cons_failure hr hf⟩

theorem Recovers.givesUp {rs : List TokenStep} (hrs : Recovers e h rs sc i s sc₁ i₁ s₁)
    (hg : GivesUp e h m sc₁ i₁ s₁ j u) :
    GivesUp e h ((TokenStep.failures rs).length + m) sc i s j u := by
  induction hrs with
  | nil => rwa [TokenStep.failures_nil, List.length_nil, Nat.zero_add]
  | @cons r rs _ _ _ _ _ _ _ _ _ hr _ ih =>
    cases hf : r.failure? with
    | none =>
      rw [TokenStep.failures_cons_none hf]
      exact (ih hg).cons hr hf
    | some f =>
      rw [TokenStep.failures_cons_some hf, List.length_cons, Nat.add_right_comm]
      exact (ih hg).cons_failure hr hf

end AtEnd

/-! ## Runs -/

theorem attemptsAllowed_of_toInt? {limit : Binary64} {m : Nat} (h : limit.toInt? = some (m : Int)) :
    attemptsAllowed limit = m := by
  unfold Binary64.toInt? at h
  split at h
  · rename_i n hn
    split at h
    · have hfloor : limit.floor? = some (m : Int) := by
        rw [Binary64.floor?, hn, Option.map_some, Int.fdiv_eq_ediv_of_nonneg _ (Int.natCast_nonneg _), h]
      rw [attemptsAllowed, hfloor]
      rfl
    · cases h
  · cases h

theorem finish_runScanner_recovering {e : Nested} {h : Handler} {sc : Scanner} {i : Interp}
    {s : Store} (hr : i.recovery = some h) :
    (runScanner e sc).finish i s =
      (runRecovering e h (attemptsAllowed i.maxAttempts) 0 sc).finish i s := by
  unfold runScanner
  rw [Task.finish_bind, Task.finish_interp, Outcome.bind_ok, hr]
  exact Task.finish_call ..

/-- A run with a handler that completes and with `m` attempts, once it has begun, from any state and
for any source.

Its tokens are read once and in order, whatever fails. They are handled to the end of the source if
and only if that is come upon, and handled, after less than `m` failures. Otherwise the run ends
with the `m`-th failure, where the `m`-th call of the handler has come to, and says that there are
too many attempts; so it does if it comes to the end of the source with a definition open. -/
theorem run_recovers {depth m : Nat} {source : String} {origin : Location} {i i₀ : Interp}
    {s s₀ : Store} {h : Handler} (hb : Task.Begins (nested depth) i s i₀ s₀)
    (hh : i.recovery = some h) (hm : i.maxAttempts.toInt? = some (m : Int)) (h1 : 1 ≤ m)
    (hc : h.Completes (nested depth)) :
    let sc := Scanner.start source origin
    let k := i₀.beginRun sc.input
    let tooMany := fun j : Interp =>
      Fault.tooManyAttempts j.topInput (.ofInt (m + 1 : Nat)) i.maxAttempts
    (∀ rs sc' j u, Recovers (nested depth) h rs sc k s₀ sc' j u →
      rs.map TokenStep.read = sc.readings rs.length ∧ sc' = sc.skip rs.length) ∧
    (∀ j u, (runScanner (nested depth) sc).finish k s₀ = .ended (.ok ()) j u ↔
      Recovered (nested depth) h m sc k s₀ j u) ∧
    (∀ f j u, (runScanner (nested depth) sc).finish k s₀ = .ended (.fault f) j u ↔
      f = tooMany j ∧ GivesUp (nested depth) h m sc k s₀ j u) ∧
    (∀ rs sc' j u, Recovers (nested depth) h rs sc k s₀ sc' j u →
      (TokenStep.failures rs).length < m → sc'.AtEnd → j.compiling = true →
      ∃ j' u', GivesUp (nested depth) h m sc k s₀ j' u') ∧
    (∀ j u, GivesUp (nested depth) h m sc k s₀ j u →
      (runSource (nested depth) source origin).finish i s =
        .ended (.fault (tooMany j)) (j.failRun i₀.transient) u) := by
  intro sc k tooMany
  obtain ⟨m, rfl⟩ : ∃ n, m = n + 1 := ⟨m - 1, by omega⟩
  have hinv := Interp.recovery_settings_invariant 0 (some h) i.maxAttempts
  have hk : k.recovery = some h ∧ k.maxAttempts = i.maxAttempts := hb.keeps hinv ⟨hh, rfl⟩
  have hin : k.inputs ≠ [] := List.cons_ne_nil _ _
  have hloop : (runScanner (nested depth) sc).finish k s₀ =
      (runRecovering (nested depth) h (m + 1) 0 sc).finish k s₀ := by
    rw [finish_runScanner_recovering hk.1, hk.2, attemptsAllowed_of_toInt? hm]
  have hgives : ∀ {j u}, GivesUp (nested depth) h (m + 1) sc k s₀ j u →
      (runScanner (nested depth) sc).finish k s₀ = .ended (.fault (tooMany j)) j u := by
    intro j u hg
    rw [hloop, hg.finish, (hg.keeps hinv hk hin).2, Nat.zero_add]
  have hcompletes : ∀ f i s, ∃ j t,
      (perform (nested depth) (h f)).finish i s = .ended (.ok ()) j t := by
    intro f i s
    obtain ⟨j, t, hx, -⟩ := hc.finish f i s
    exact ⟨j, t, hx⟩
  refine ⟨fun rs sc' j u hrs => hrs.readings, fun j u => ⟨fun hx => ?_, fun hd => ?_⟩,
    fun f j u => ⟨fun hx => ?_, fun hg => ?_⟩, fun rs sc' j u hrs hlt hend ho => ?_,
    fun j u hg => ?_⟩
  · rw [hloop] at hx
    obtain ⟨-, hd⟩ | ⟨⟨f, hf⟩, -⟩ := recovered_or_givesUp hcompletes hx Result.ok_ne_exhausted
    · exact hd
    · cases hf
  · rw [hloop, hd.finish]
  · have hx' := hx
    rw [hloop] at hx
    obtain ⟨hf, -⟩ | ⟨-, hg⟩ := recovered_or_givesUp hcompletes hx Result.fault_ne_exhausted
    · cases hf
    · rw [hgives hg] at hx'
      cases hx'
      exact ⟨rfl, hg⟩
  · rw [hg.1]
    exact hgives hg.2
  · obtain ⟨n, hn⟩ := Nat.exists_eq_add_of_lt hlt
    obtain ⟨j', u', hg⟩ := hend.givesUp ho hc n u
    rw [hn]
    exact ⟨j', u', hrs.givesUp hg⟩
  · rw [hb.finish_runSource, Task.finish_ownRun, hgives hg]
    rfl

/-- A handler that does nothing. -/
def Handler.idle : Handler := fun _ => .done ()

/-- An interpreter without words whose runs have that handler and three attempts. -/
def Interp.recovering : Interp := { Interp.blank with recovery := some .idle }

/-- A definition is not closed. -/
theorem run_recovers_open_definition : ∃ (j : Interp) (u : Store),
    (runSource (nested 1) ": A" .origin).finish .recovering .blank =
      .ended (.fault (.tooManyAttempts j.topInput (.ofInt (3 + 1 : Nat)) 3))
        (j.failRun Interp.recovering.transient) u := by
  have hkinds : (Scanner.start ": A" .origin).next.1.toOption.map Token.kind = some .startDef ∧
      (Scanner.start ": A" .origin).next.2.next.1.toOption.map Token.kind = some .eos := by
    decide +kernel
  obtain ⟨⟨t, ht, hk⟩, ⟨t', ht', hk'⟩⟩ :=
    hkinds.imp Option.map_eq_some_iff.mp Option.map_eq_some_iff.mp
  have hb : Task.Begins (nested 1) .recovering .blank .recovering .blank := .outermost rfl rfl
  have hc : Handler.idle.Completes (nested 1) := fun _ i s => ⟨i, s, rfl⟩
  obtain ⟨-, -, -, hopen, hrun⟩ :=
    @run_recovers 1 3 ": A" .origin _ _ _ _ _ hb rfl (by decide +kernel) (by decide) hc
  have hhandled : ∃ j, j.compiling = true ∧ (handleToken (nested 1) t).finish
      (Interp.recovering.beginRun (Scanner.start ": A" .origin).input) .blank =
        .ended (.ok ()) j .blank := by
    unfold handleToken
    rw [hk]
    exact ⟨_, rfl, rfl⟩
  obtain ⟨j, ho, hj⟩ := hhandled
  have hstep : Resumes (nested 1) .idle (.handled t) _ _ _ _ _ _ :=
    .handled (Prod.ext (eq_ok_of_toOption_eq_some ht) rfl) (by rw [hk]; decide) hj
  obtain ⟨j, u, hg⟩ := hopen _ _ _ _ (.cons hstep .nil) (Nat.zero_lt_succ 2)
    ⟨t', _, Prod.ext (eq_ok_of_toOption_eq_some ht') rfl, hk'⟩ ho
  exact ⟨j, u, hrun j u hg⟩

end Wordstack
