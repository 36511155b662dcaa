import Wordstack.Machine.Run
import Wordstack.Vocabulary.Core

/-!
# Making interpreters

- **Standard interpreters** (`Interp.standard`): the core vocabulary is imported first, so it is
  searched last and other modules can redefine its words. It is the one of the registry, if there
  is one.
- **Plain interpreters** (`Interp.plain`): no core vocabulary.
-/

namespace Wordstack

namespace Interp

/-- The core vocabulary of an interpreter: the one of its registry, or one of its own. -/
def withCore (i : Interp) (s : Store) : Except Fault (Interp × Store) := do
  match i.registry.get? coreName with
  | some m => return importAtCreation (i, s) m
  | none =>
    let (m, s) ← s.define coreModule
    return attach (i, s) m

/-- An interpreter with the core vocabulary and the given modules. -/
def standard (s : Store) (settings : Settings) (modules : List Nat) :
    Except Fault (Interp × Store) := do
  let (i, s) ← bare s settings true
  return modules.foldl attach (← i.withCore s)

/-- An interpreter with the given modules only. -/
def plain (s : Store) (settings : Settings) (modules : List Nat) :
    Except Fault (Interp × Store) := do
  return modules.foldl attach (← bare s settings false)

end Interp

end Wordstack
