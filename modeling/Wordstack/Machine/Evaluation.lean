import Wordstack.Machine.Run
import Wordstack.Fault.Describe

/-!
# Evaluation

A run whose outcome is data: the stack it leaves, and the fault it ended with, if any.
-/

namespace Wordstack

/-- What a run leaves to its caller instead of raising a fault. -/
structure Evaluation where
  /-- The values on the stack, deepest first; after a fault those that were there. -/
  stack : List Val
  fault : Option Fault

/-- The text that shows a fault of a run of source text: with the source where the engine raised
it. -/
def Fault.shown (source : String) (f : Fault) : String :=
  if f.isEngine then f.describe source else f.message

/-- Runs source text and gathers the outcome. -/
def evaluate (e : Nested) (source : String) : Task Evaluation := do
  match ← Task.attempt (runSource e source Location.origin) with
  | .ok _ => return ⟨← Task.stack, none⟩
  | .error f => return ⟨← Task.stack, some f⟩

end Wordstack
