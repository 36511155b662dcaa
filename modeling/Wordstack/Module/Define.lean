import Wordstack.Module.Basic

/-!
# Modules from declarations

- **Declarations** (`NativeSpec`, `DirectSpec`, `ModuleSpec`): words with their native code as data.
- **Building** (`ModuleSpec.build`): stack effects are read first, so a malformed one is a fault of
  the declaration; then names must be unique.
-/

namespace Wordstack

/-- A word that takes inputs from the stack and leaves at most one result. -/
structure NativeSpec where
  name : String
  effect : String
  description : Option String := none
  /-- Whether the code is a task of its own, because it may wait. -/
  waits : Bool := false
  code : List Val → Options → Native (Option Val)
  handlers : List Handler := []

/-- A word that works on the stack itself. -/
structure DirectSpec where
  name : String
  effect : Option String := none
  description : Option String := none
  /-- Whether the code is a task of its own, because it may wait. -/
  waits : Bool := false
  code : Native Unit
  handlers : List Handler := []

/-- A module with its words. All of them are exported unless the exports are given. -/
structure ModuleSpec where
  name : String
  description : String := ""
  natives : List NativeSpec := []
  directs : List DirectSpec := []
  exports : Option (List String) := none
  runtimeSpecific : Bool := true
  source : String := ""

/-- The word of a declaration, its arity read from the stack effect. -/
def NativeSpec.word (s : NativeSpec) : Except Fault Word := do
  let e ← StackEffect.ofText s.effect
  return .native { name := s.name, effect := some s.effect, description := s.description }
    e.inputs.length e.hasOptions s.waits s.code s.handlers

/-- The word of a declaration; a stack effect must be well formed. -/
def DirectSpec.word (s : DirectSpec) : Except Fault Word := do
  match s.effect with
  | some effect => let _ ← StackEffect.ofText effect
  | none => pure ()
  return .direct { name := s.name, effect := s.effect, description := s.description } s.waits
    s.code s.handlers

namespace ModuleSpec

/-- The words of all declarations in order. -/
def words (s : ModuleSpec) : Except Fault (List Word) := do
  return (← s.natives.mapM NativeSpec.word) ++ (← s.directs.mapM DirectSpec.word)

/-- The first name that occurs again. -/
def repeated? (seen : List String) : List String → Option String
  | [] => none
  | n :: ns => if seen.contains n then some n else repeated? (n :: seen) ns

/-- The module of a declaration. The words are numbered from `firstId`. -/
def build (s : ModuleSpec) (firstId : Nat) : Except Fault Module := do
  let words ← s.words
  let names := words.map Word.name
  match repeated? [] names with
  | some name =>
    .error (.general "" ("Duplicate word " ++ name ++ " in module " ++ s.name) none none)
  | none =>
    let empty := Module.new s.name s.description s.source s.runtimeSpecific
    let m := (words.zipIdx firstId).foldl (fun m w => m.addWord w.2 w.1) empty
    return m.addExports (s.exports.getD names)

end ModuleSpec

end Wordstack
