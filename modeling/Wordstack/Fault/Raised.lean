import Wordstack.Fault.Basic
import Wordstack.Text.Basic

/-!
# Raised values in memory

Any value can be raised, and an error of the engine can name any value as its cause, also one that
leads back to itself. A `Fault` is what this comes to for the errors that the engine raises by
itself.

- **Raised values** (`Raised`): what a report says of a value, and where its cause is among all
  values.
- **Roots** (`Raised.root`): the end of the causes, or the first value that comes again.
- **Reports** (`Raised.report`): the value as it leaves a runtime.
- **Faults** (`Fault.raised`): a fault and its causes, one after the other.
-/

namespace Wordstack

/-- A value that is raised, or is the cause of one. -/
structure Raised where
  /-- The name of its class, if it is an error. -/
  kind? : Option String
  /-- What sort of value it is, if it is no error. -/
  sort : String
  /-- The message of an error; the text of another value. -/
  message : String
  /-- Whether it is an error of the engine. -/
  isEngine : Bool := false
  location? : Option Location := none
  /-- The name of the module that it is about, empty if there is none. -/
  module : String := ""
  /-- The host's trace of an error; its first line is no part of the trace. -/
  stack : String := ""
  /-- The place of its cause. -/
  cause? : Option Nat := none

namespace Raised

/-- The value that stands where there is none. -/
instance : Inhabited Raised := ⟨{ kind? := none, sort := "undefined", message := "undefined" }⟩

/-- The value at a place. -/
def valueAt (values : List Raised) (k : Nat) : Raised := values[k]?.getD default

/-- The place of the cause, which only errors of the engine have. -/
def next? (x : Raised) : Option Nat := if x.isEngine then x.cause? else none

/-- Follows the causes from a place through places that have not been seen. -/
def rootFrom (values : List Raised) (unseen : List Nat) (k : Nat) : Nat :=
  if _h : k ∈ unseen then
    match (valueAt values k).next? with
    | some cause => rootFrom values (unseen.erase k) cause
    | none => k
  else k
termination_by unseen.length
decreasing_by
  rw [List.length_erase_of_mem _h]
  exact Nat.pred_lt (Nat.ne_of_gt (List.length_pos_of_mem _h))

/-- The place of the innermost cause. In a circle it is the first place that comes again. -/
def root (values : List Raised) (k : Nat) : Nat := rootFrom values (List.range values.length) k

/-- The lines of the host's trace. -/
def trace (x : Raised) : List String :=
  if x.kind?.isSome then
    (((Text.splitAt '\n' x.stack).drop 1).map Text.trim).filter fun line => !line.isEmpty
  else []

/-- The value at a place as it leaves the runtime. The context given is set over what the value
itself says about its root. -/
def report (values : List Raised) (k : Nat) (context : List (String × String)) : Report :=
  let x := valueAt values k
  let innermost := valueAt values (root values k)
  { message := x.message
    runtime := Fault.runtimeName
    stackTrace := x.trace
    errorType := x.kind?.getD "Error"
    wordLocation := if x.isEngine then x.location?.map Location.toText else none
    moduleName := if x.module.isEmpty then none else some x.module
    context :=
      let inner := if root values k = k then [] else
        [("root_error_type", innermost.kind?.getD innermost.sort),
          ("root_message", innermost.message)]
      Report.contextOf (inner ++ context) }

/-- A fault, with its cause at a place. The host's trace is left out. -/
def ofFault (f : Fault) (cause? : Option Nat) : Raised where
  kind? := f.kindName?
  sort := "string"
  message := f.message
  isEngine := f.isEngine
  location? := f.location?
  module := f.moduleName?.getD ""
  cause?

end Raised

/-- A fault and its causes, the nearest first. -/
def Fault.raised (f : Fault) : List Raised :=
  (f :: f.causes).mapIdx fun k g => .ofFault g (g.cause?.map fun _ => k + 1)

end Wordstack
