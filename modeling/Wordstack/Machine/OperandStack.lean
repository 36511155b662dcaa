import Wordstack.Value.Basic

/-!
# The operand stack

- **Stacks** (`OperandStack`): the values, the top one first.
- **View** (`OperandStack.toList`): the values with the deepest one first.
- **Operations** (`push`, `pop?`, `popN?`, `popAbove`, …): taking more values than there are leaves
  the stack alone.
-/

namespace Wordstack

/-- A stack of values, kept with the top one first. -/
structure OperandStack where
  values : List Val := []

namespace OperandStack

/-- The values, deepest first. -/
def toList (s : OperandStack) : List Val := s.values.reverse

/-- The stack of values given deepest first. -/
def ofList (vs : List Val) : OperandStack := ⟨vs.reverse⟩

/-- The number of values. -/
def depth (s : OperandStack) : Nat := s.values.length

/-- Puts a value on top. -/
def push (s : OperandStack) (v : Val) : OperandStack := ⟨v :: s.values⟩

/-- The top value. -/
def top? (s : OperandStack) : Option Val := s.values.head?

/-- The top value and the stack below it. -/
def pop? (s : OperandStack) : Option (Val × OperandStack) :=
  match s.values with
  | [] => none
  | v :: vs => some (v, ⟨vs⟩)

/-- The top `n` values, deepest first, and the stack below them. -/
def popN? (s : OperandStack) (n : Nat) : Option (List Val × OperandStack) :=
  if s.depth < n then none else some ((s.values.take n).reverse, ⟨s.values.drop n⟩)

/-- The values above a depth, deepest first, and the stack up to it. A negative depth counts from
the top. -/
def popAbove (s : OperandStack) (depth : Int) : List Val × OperandStack :=
  let kept := (if 0 ≤ depth then depth else s.depth + depth).toNat
  ((s.values.take (s.depth - kept)).reverse, ⟨s.values.drop (s.depth - kept)⟩)

@[simp] theorem toList_ofList (vs : List Val) : (ofList vs).toList = vs := by
  simp [toList, ofList]

@[simp] theorem toList_push (s : OperandStack) (v : Val) : (s.push v).toList = s.toList ++ [v] := by
  simp [toList, push]

end OperandStack

end Wordstack
