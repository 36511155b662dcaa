import Wordstack.Module.Lookup
import Wordstack.Text.Lower

/-!
# Registries

A registry holds the modules that the interpreters of a runtime share.

- **Registration** (`Registry.register`): names are unique, and a frozen registry takes no more.
- **Search** (`Registry.search`): by parts of names, descriptions and exported names in any case.
- **Listings** (`summaryOf`, `describeModule`) and **validation** (`exportProblems`,
  `Registry.problems`): every exported name should have a word.
-/

namespace Wordstack

/-- Modules by name, in order of registration. -/
structure Registry where
  entries : List (String × Nat) := []
  frozen : Bool := false

namespace Registry

/-- The module registered under a name. -/
def get? (r : Registry) (name : String) : Option Nat := r.entries.lookup name

/-- The names in order of registration. -/
def names (r : Registry) : List String := r.entries.map (·.1)

/-- The modules in order of registration. -/
def modules (r : Registry) : List Nat := r.entries.map (·.2)

/-- Adds a module under a new name, unless the registry is frozen. -/
def register (r : Registry) (name : String) (module : Nat) : Except Fault Registry :=
  if r.frozen then .error (.error ("Module registry is frozen; cannot register " ++ name))
  else if (r.get? name).isSome then .error (.error ("Module already registered: " ++ name))
  else .ok { r with entries := r.entries ++ [(name, module)] }

/-- Closes the registry. -/
def freeze (r : Registry) : Registry := { r with frozen := true }

/-- The modules whose name, description or exported names contain the query in any case. -/
def search (r : Registry) (modules : Array Module) (query : String) : List String :=
  let found := fun (text : String) => Text.contains (Text.lower text) (Text.lower query)
  r.entries.filterMap fun e =>
    match modules[e.2]? with
    | some m =>
      if found m.name || found m.description || m.exports.any found then some m.name else none
    | none => none

end Registry

/-- One line of a listing. -/
structure ModuleSummary where
  name : String
  description : String
  wordCount : Nat
  runtimeSpecific : Bool

/-- The documentation of a word. -/
structure WordDoc where
  name : String
  effect : String
  description : String

/-- The documentation of the exported words of a module. -/
structure ModuleDoc where
  name : String
  description : String
  words : List WordDoc

/-- A module in one line. -/
def summaryOf (modules : Array Module) (i : Nat) : ModuleSummary :=
  let m := modules[i]?.getD default
  ⟨m.name, m.description, (exportedWords modules i).length, m.runtimeSpecific⟩

/-- The documentation of a word, empty where it has none. -/
def Word.doc (w : Word) : WordDoc :=
  ⟨w.name, w.label.effect.getD "", w.label.description.getD ""⟩

/-- A module with its exported words. -/
def describeModule (modules : Array Module) (i : Nat) : ModuleDoc :=
  let m := modules[i]?.getD default
  ⟨m.name, m.description, (exportedWords modules i).map Word.doc⟩

/-- What is wrong with the exports of a module. -/
def exportProblems (modules : Array Module) (i : Nat) : List String :=
  let m := modules[i]?.getD default
  (if m.name.isEmpty then ["missing module name"] else []) ++
    m.exports.filterMap fun name =>
      if (exportedWord? modules [] i name).isSome then none
      else some (m.name ++ ": exported word " ++ name ++ " is not defined")

/-- What is wrong with the exports of the registered modules that are ready. -/
def Registry.problems (r : Registry) (modules : Array Module) : List String :=
  r.modules.flatMap fun i =>
    if (modules[i]?.getD default).isReady then exportProblems modules i else []

end Wordstack
