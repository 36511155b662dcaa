import Wordstack.Config.Basic
import Wordstack.Machine.Store

/-!
# Loading configured modules

- **Factories** (`Factories`): the code that builds modules, each under a path.
- **Building** (`Factories.build`): a module must have the name of its entry. The entry's
  description stands in for a missing one.
- **Loading** (`loadModules`): entries in order. A required module that cannot be built ends it, an
  optional one is passed over.
-/

namespace Wordstack

/-- Code that builds a module for an entry. -/
abbrev ModuleFactory := ModuleEntry → Except Fault ModuleSpec

/-- Factories with their paths, in order of registration. -/
structure Factories where
  entries : List (String × ModuleFactory) := []

namespace Factories

/-- The factory under a path. -/
def get? (fs : Factories) (path : String) : Option ModuleFactory := fs.entries.lookup path

/-- The paths in order of registration. -/
def paths (fs : Factories) : List String := fs.entries.map (·.1)

/-- Adds a factory under a new path. -/
def register (fs : Factories) (path : String) (factory : ModuleFactory) : Except Fault Factories :=
  if (fs.get? path).isSome then .error (.error ("Module factory already registered: " ++ path))
  else .ok ⟨fs.entries ++ [(path, factory)]⟩

/-- What an entry says about its module. -/
def configured (entry : ModuleEntry) (m : Module) : Module :=
  { m with
    description := if m.description.isEmpty then entry.description else m.description
    runtimeSpecific := entry.runtimeSpecific.getD m.runtimeSpecific }

/-- The module of an entry, added to the store. -/
def build (fs : Factories) (entry : ModuleEntry) (s : Store) : Except Fault (Nat × Store) := do
  match fs.get? entry.path with
  | none =>
    .error (.moduleLoad entry.name
      ("no module factory for import path '" ++ entry.path ++ "'") none)
  | some factory =>
    let spec ← factory entry
    let (m, s) ← s.define spec
    if spec.name = entry.name then .ok (m, s.updateModule m (configured entry))
    else
      .error (.moduleLoad entry.name
        ("factory '" ++ entry.path ++ "' built module '" ++ spec.name ++ "'") none)

end Factories

/-- Where log lines of loading say they come from. -/
def loadScope : String := "module-loader"

/-- A fault of building as a fault of loading. -/
def Fault.ofLoading (name : String) (f : Fault) : Fault :=
  match f with
  | .moduleLoad .. => f
  | f => .moduleLoad name f.message (some f)

/-- Loads the modules of entries in order; `loaded` are those before. -/
def loadFrom (fs : Factories) (s : Store) (loaded : List Nat) :
    List ModuleEntry → Except Fault (List Nat) × Store
  | [] =>
    (.ok loaded, s.log .info loadScope ("Loaded " ++ toString loaded.length ++ " module(s)"))
  | entry :: rest =>
    let s := s.log .info loadScope
      ("Loading module '" ++ entry.name ++ "' from " ++ entry.path)
    match fs.build entry s with
    | .ok (m, s) =>
      let detail := if entry.description.isEmpty then "" else ": " ++ entry.description
      loadFrom fs (s.log .info loadScope ("Loaded '" ++ entry.name ++ "'" ++ detail))
        (loaded ++ [m]) rest
    | .error f =>
      if entry.optional then
        loadFrom fs
          (s.log .warn loadScope
            ("Optional module '" ++ entry.name ++ "' not available: " ++ f.message))
          loaded rest
      else (.error (f.ofLoading entry.name), s)

/-- Loads the modules of entries in order. -/
def loadModules (fs : Factories) (entries : List ModuleEntry) (s : Store) :
    Except Fault (List Nat) × Store :=
  loadFrom fs s [] entries

end Wordstack
