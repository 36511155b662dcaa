import Wordstack.Word.Basic

/-!
# Modules

A module bundles words and variables under a name, with a list of the names that importers see.

- **Modules** (`Module`): words in order of definition, exported names in order of export, variable
  cells by name, imports with their qualifiers, and the modules of its inner blocks.
- **Own words** (`Module.ownWord?`): the latest definition of a name.
- **Changes** (`Module.addWord`, `Module.addExports`, `Module.addImport`, …).
-/

namespace Wordstack

/-- A module made visible in another one, under a qualifier unless that is empty. -/
structure Import where
  module : Nat
  qualifier : String
deriving DecidableEq

/-- The name that an import looks for in its module when `name` is wanted: what follows the
qualifier and a dot. -/
def Import.target? (i : Import) (name : String) : Option String :=
  if i.qualifier.isEmpty then some name
  else if Text.startsWith name (i.qualifier ++ ".") then
    some (Text.drop name (i.qualifier.length + 1))
  else none

/-- A named bundle of words and variables. -/
structure Module where
  name : String
  description : String := ""
  /-- Source text that is run once, in the module's own scope, before the module is used. -/
  source : String := ""
  /-- Whether the module belongs to this runtime only. -/
  runtimeSpecific : Bool := true
  /-- Whether the source has been run to its end. -/
  isReady : Bool := true
  words : List Word := []
  exports : List String := []
  /-- The variables in order of creation, each with its cell. -/
  cells : List (String × Nat) := []
  imports : List Import := []
  /-- The modules of the blocks inside this one. -/
  children : List (String × Nat) := []

namespace Module

instance : Inhabited Module := ⟨{ name := "" }⟩

/-- A module without words; it is ready when it has no source. -/
def new (name description source : String) (runtimeSpecific : Bool) : Module :=
  { name, description, source, runtimeSpecific, isReady := source.isEmpty }

/-- The latest definition of a name in the module itself. -/
def ownWord? (m : Module) (name : String) : Option Word :=
  m.words.reverse.find? fun w => w.name == name

/-- The cell of a variable. -/
def cell? (m : Module) (name : String) : Option Nat := m.cells.lookup name

/-- Whether importers see a name. -/
def isExported (m : Module) (name : String) : Bool := m.exports.contains name

/-- Adds a word with an identity. -/
def addWord (m : Module) (id : Nat) (w : Word) : Module :=
  { m with words := m.words ++ [w.relabel fun l => { l with id := some id, home := some m.name }] }

/-- Adds names to the exports that are not among them. -/
def addExports (m : Module) (names : List String) : Module :=
  let add := fun (acc : List String) n => if acc.contains n then acc else acc ++ [n]
  { m with exports := names.foldl add m.exports }

/-- Adds an import. -/
def addImport (m : Module) (i : Import) : Module := { m with imports := m.imports ++ [i] }

/-- Adds a variable with a cell. -/
def addVariable (m : Module) (name : String) (cell : Nat) : Module :=
  { m with cells := m.cells ++ [(name, cell)] }

/-- Adds the module of an inner block. -/
def addChild (m : Module) (name : String) (child : Nat) : Module :=
  { m with children := m.children ++ [(name, child)] }

end Module

end Wordstack
