import Wordstack.Proofs.Runs.SingleWord
import Wordstack.Proofs.Source.Lines

/-!
# Runs token by token

- **Tokens** (`Task.readToken`, `Task.readTokens`): what a run without a handler does with the tokens
  of its source, one after the other.
- **Runs** (`finish_runScanner_scans`): the run of a source handles the tokens that are read from it
  and then what reading stops with, its end if it can be tokenized (`finish_runScanner_tokens`).
-/

namespace Wordstack

namespace Task

/-- Handles a token and notes it as the latest one. -/
def readToken (e : Nested) (t : Token) : Task Unit := do
  handleToken e t
  update fun i => i.moved i.inputs i.call (some t.location)

/-- Handles tokens in order. -/
def readTokens (e : Nested) : List Token → Task Unit
  | [] => pure ()
  | t :: ts => do
    readToken e t
    readTokens e ts

/-- Does what reading stops with asks for: its end is handled like a token. -/
def readStop (e : Nested) : Except Fault Token → Task Unit
  | .ok t => readToken e t
  | .error f => throw f

end Task

/-- Goes on from where reading has stopped. -/
def Task.stopped : Option (Fault × Scanner) → Task Unit
  | none => pure ()
  | some (f, _) => throw f

section Reading

variable {e : Nested} {i : Interp} {s : Store}

theorem finish_readToken {t : Token} :
    (Task.readToken e t).finish i s =
      ((handleToken e t).finish i s).bind fun _ j u =>
        .ended (.ok ()) (j.moved j.inputs j.call (some t.location)) u := by
  unfold Task.readToken
  rw [Task.finish_bind]
  rfl

theorem finish_readTokens_cons {t : Token} {ts : List Token} :
    (Task.readTokens e (t :: ts)).finish i s =
      ((Task.readToken e t).finish i s).bind fun _ j u => (Task.readTokens e ts).finish j u := by
  rw [Task.readTokens, Task.finish_bind]

theorem finish_readTokens_append {ts us : List Token} :
    (Task.readTokens e (ts ++ us)).finish i s =
      ((Task.readTokens e ts).finish i s).bind fun _ j u => (Task.readTokens e us).finish j u := by
  induction ts generalizing i s with
  | nil => rfl
  | cons t ts ih =>
    rw [List.cons_append, finish_readTokens_cons, finish_readTokens_cons]
    cases (Task.readToken e t).finish i s with
    | hung u => rfl
    | ended r j u =>
      cases r with
      | ok => exact ih
      | fault f => rfl
      | exhausted => rfl

theorem finish_runTokens_fault {bound : Nat} {sc sc' : Scanner} {f : Fault}
    (h : sc.next = (.error f, sc')) :
    (runTokens e (bound + 1) sc).finish i s = .ended (.ok (some (f, sc'))) i s := by
  rw [runTokens, h]
  rfl

/-- Reading handles the tokens of the source and then what it stops with, or stops at the first
fault. -/
theorem finish_runTokens_scans {sc : Scanner} {ts : List Token} {stop : Except Fault Token}
    (h : sc.Scans ts stop) {bound : Nat} (hb : sc.rest.length < bound) :
    ((runTokens e bound sc).finish i s).bind (fun stopped => (Task.stopped stopped).finish) =
      ((Task.readTokens e ts).finish i s).bind fun _ => (Task.readStop e stop).finish := by
  induction h generalizing bound i s with
  | fault h =>
    obtain ⟨bound, rfl⟩ := Nat.exists_eq_add_one_of_ne_zero (Nat.ne_zero_of_lt hb)
    rw [finish_runTokens_fault h]
    rfl
  | @eos sc sc' t h hk =>
    obtain ⟨bound, rfl⟩ := Nat.exists_eq_add_one_of_ne_zero (Nat.ne_zero_of_lt hb)
    rw [finish_runTokens_next h, show (Task.readTokens e []).finish i s = .ended (.ok ()) i s from rfl,
      Outcome.bind_ok, Task.readStop, finish_readToken]
    cases (handleToken e t).finish i s with
    | hung u => rfl
    | ended r j u =>
      cases r with
      | ok => simp only [Outcome.attempt, Outcome.bind, finishToken, if_pos hk]; rfl
      | fault f => rfl
      | exhausted => rfl
  | @next sc sc' t ts stop h hk _ ih =>
    obtain ⟨bound, rfl⟩ := Nat.exists_eq_add_one_of_ne_zero (Nat.ne_zero_of_lt hb)
    have hlt := Scanner.rest_lt h hk
    rw [finish_runTokens_next h, finish_readTokens_cons, finish_readToken]
    cases (handleToken e t).finish i s with
    | hung u => rfl
    | ended r j u =>
      cases r with
      | ok =>
        simp only [Outcome.attempt, Outcome.bind, finishToken, if_neg hk]
        exact ih (by omega)
      | fault f => rfl
      | exhausted => rfl

/-- The run of a source without a handler handles the tokens that are read from it and then what
reading stops with. -/
theorem finish_runScanner_scans {sc : Scanner} {ts : List Token} {stop : Except Fault Token}
    (h : sc.Scans ts stop) (hr : i.recovery = none) :
    (runScanner e sc).finish i s =
      ((Task.readTokens e ts).finish i s).bind fun _ => (Task.readStop e stop).finish := by
  rw [finish_runScanner hr, ← finish_runTokens_scans h (Nat.lt_succ_self _)]
  refine congrArg (Outcome.bind _) ?_
  funext stopped i s
  cases stopped with
  | none => rfl
  | some stopped => rfl

/-- The run of a source that can be tokenized reads its tokens and then its end. -/
theorem finish_runScanner_tokens {text : String} {origin : Location} {ts : List Token}
    (h : tokenize text origin = .ok ts) : ∃ eos : Token, eos.kind = .eos ∧
      ∀ i s, i.recovery = none → (runScanner e (Scanner.start text origin)).finish i s =
        ((Task.readTokens e ts).finish i s).bind fun _ => (Task.readToken e eos).finish := by
  obtain ⟨eos, hscans⟩ := tokenize_eq_ok_iff.mp h
  exact ⟨eos, hscans.kind_eos, fun i s hr => finish_runScanner_scans hscans hr⟩

theorem finish_readToken_eos {t : Token} (hk : t.kind = .eos) (hc : i.compiling = false) :
    (Task.readToken e t).finish i s =
      .ended (.ok ()) (i.moved i.inputs i.call (some t.location)) s := by
  rw [finish_readToken, finish_handleToken_eos hk hc, Outcome.bind_ok]

/-- The end of an outermost run, once its tokens have been read; `stop` is where the source ends. -/
def finishReading (saved : Transient) (stop : Location) :
    Except Fault Unit → Interp → Store → Outcome Unit
  | .ok _, i, s =>
    (Task.finishRun true saved (.ok ())).finish (i.moved i.inputs i.call (some stop)) s
  | .error f, i, s => .ended (.fault f) (i.failRun saved) s

/-- An outermost run without a handler reads the tokens of its source, if these leave no definition
open. -/
theorem finish_ownRun_tokens {text : String} {origin : Location} {ts : List Token}
    (h : tokenize text origin = .ok ts) : ∃ stop, ∀ i s, i.recovery = none →
      (∀ j u, (Task.readTokens e ts).finish (i.beginRun (Scanner.start text origin).input) s =
        .ended (.ok ()) j u → j.compiling = false) →
      (Task.ownRun e true (Scanner.start text origin)).finish i s =
        ((Task.readTokens e ts).finish (i.beginRun (Scanner.start text origin).input) s
          ).attempt.bind (finishReading i.transient stop) := by
  obtain ⟨eos, heos, hscan⟩ := finish_runScanner_tokens (e := e) h
  refine ⟨eos.location, fun i s hr hc => ?_⟩
  rw [Task.finish_ownRun,
    hscan (i.beginRun (Scanner.start text origin).input) s hr]
  cases hread : (Task.readTokens e ts).finish (i.beginRun (Scanner.start text origin).input) s with
  | hung u => rfl
  | ended r j u =>
    cases r with
    | ok =>
      rw [Outcome.bind_ok, finish_readToken_eos heos (hc j u hread)]
      rfl
    | fault f => rfl
    | exhausted => rfl

end Reading

end Wordstack
