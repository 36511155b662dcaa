import Wordstack.Module.Basic

/-!
# Looking words up

Modules refer to each other by their index in an array of modules.

- **As an importer** (`exportedWord?`): an exported name is looked for among the module's own words,
  then among its imports, the latest first. Modules on the path are not entered again.
- **Inside a module** (`findIn?`): its own words, then its variables, then its imports.
- **Exported words** (`exportedWords`): in order of export, each name once.
-/

namespace Wordstack

/-- The modules that are not on a path. -/
def unvisited (modules : Array Module) (path : List Nat) : Nat :=
  ((List.range modules.size).filter fun i => !path.contains i).length

theorem unvisited_lt {modules : Array Module} {path : List Nat} {i : Nat}
    (hi : i < modules.size) (hp : path.contains i = false) :
    unvisited modules (i :: path) < unvisited modules path := by
  unfold unvisited
  have h : (List.range modules.size).filter (fun j => !(i :: path).contains j) =
      ((List.range modules.size).filter fun j => !path.contains j).filter fun j => j != i := by
    rw [List.filter_filter]
    congr 1
    funext j
    simp only [List.contains_cons, Bool.not_or, bne]
  rw [h]
  apply List.length_filter_lt_length_iff_exists.mpr
  refine ⟨i, ?_, by simp⟩
  simpa using ⟨hi, by simpa using hp⟩

/-- The word that an importer of module `i` sees under a name, the modules on the path being
barred. -/
def exportedWord? (modules : Array Module) (path : List Nat) (i : Nat) (name : String) :
    Option Word :=
  if hi : i < modules.size then
    if hp : path.contains i = false then
      let m := modules[i]
      if m.isExported name then
        (m.ownWord? name).or <|
          m.imports.reverse.findSome? fun imp =>
            match imp.target? name with
            | some target => exportedWord? modules (i :: path) imp.module target
            | none => none
      else none
    else none
  else none
termination_by unvisited modules path
decreasing_by exact unvisited_lt hi hp

/-- The word that the imports of a module give for a name. -/
def importedWord? (modules : Array Module) (i : Nat) (imports : List Import) (name : String) :
    Option Word :=
  imports.reverse.findSome? fun imp =>
    match imp.target? name with
    | some target => exportedWord? modules [i] imp.module target
    | none => none

/-- What stands for a name in module `i`: its own word, a constant that refers to its variable, or
an imported word. -/
def findIn? (modules : Array Module) (i : Nat) (name : String) : Option Word :=
  match modules[i]? with
  | none => none
  | some m =>
    match m.ownWord? name with
    | some w => some w
    | none =>
      match m.cell? name with
      | some cell => some (.constant { name } (.variableRef ⟨cell, name⟩))
      | none => importedWord? modules i m.imports name

/-- The exported words of a module, in order of export. -/
def exportedWords (modules : Array Module) (i : Nat) : List Word :=
  match modules[i]? with
  | none => []
  | some m => m.exports.filterMap fun name => exportedWord? modules [] i name

end Wordstack
