import Wordstack.Fault.Basic
import Wordstack.Value.Basic

/-!
# Memo cells

A memo cell remembers the value of the latest successful run of a word. Callers that want a run
while there is a current one wait for it and get its outcome, so at most one run is in progress.

- **Cells** (`Memo`): the remembered value, the outcomes of the ended runs, and the current run, if
  there is one. Runs are numbered in order.
- **Transitions** (`Memo.enter`, `Memo.finish`, `Memo.close`): a caller begins a run or joins the
  current one; a run that ends leaves its outcome; it is the current one until its caller has taken
  the outcome over.
-/

namespace Wordstack

/-- The memory of a memo word. -/
structure Memo where
  value : Option Val := none
  outcomes : Array (Except Fault Val) := #[]
  /-- The number of the run that callers can join. -/
  current : Option Nat := none

namespace Memo

/-- What a caller has to do to get a fresh value. -/
inductive Entry where
  /-- Run the word. -/
  | begin
  /-- Wait for the run of this number. -/
  | join (run : Nat)
deriving DecidableEq

/-- A caller wants a fresh value. -/
def enter (m : Memo) : Entry × Memo :=
  match m.current with
  | some run => (.join run, m)
  | none => (.begin, { m with current := some m.outcomes.size })

/-- The run in progress ends. -/
def finish (m : Memo) (outcome : Except Fault Val) : Memo :=
  { m with outcomes := m.outcomes.push outcome }

/-- The caller of the current run takes over its outcome. A failed run leaves the remembered value
as it was. -/
def close (m : Memo) (outcome : Except Fault Val) : Memo :=
  { m with
    value := match outcome with
      | .ok v => some v
      | .error _ => m.value
    current := none }

/-- The outcome of a run, once it has ended. -/
def outcome? (m : Memo) (run : Nat) : Option (Except Fault Val) := m.outcomes[run]?

end Memo

end Wordstack
