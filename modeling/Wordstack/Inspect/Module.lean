import Wordstack.Inspect.Value
import Wordstack.Machine.Store
import Wordstack.Module.Registry

/-!
# Words and modules for inspection

- **Words** (`Inspect.word`): the kind, the names, the documentation, and what only that kind of
  word has: the body of a definition, the value of a constant, the word behind a memo.
- **Modules** (`Inspect.module`): everything in a module, with the values of its variables.
- **Listings** (`Inspect.summary`, `Inspect.documentation`), **stack effects** (`Inspect.effect`)
  and **checks** (`Inspect.problems`).
-/

namespace Wordstack.Inspect

/-- The kind of a word with what only that kind has. -/
def wordKind : Word → String × List (String × Json)
  | .constant _ v => ("PushValueWord", [("value", value v)])
  | .definition _ body => ("DefinitionWord", [("body", Json.strs (body.map fun e => e.1.name))])
  | .native _ n o _ _ _ => ("NativeWord", [("inputs", nat n), ("options", .bool o)])
  | .direct .. => ("DirectWord", [])
  | .memo _ _ w => ("MemoWord", [("wraps", .str w.name)])
  | .memoRefresh .. => ("MemoBangWord", [])
  | .memoReload .. => ("MemoBangAtWord", [])
  | .openArray => ("StartArrayWord", [])
  | .closeArray => ("EndArrayWord", [])
  | .openModule _ => ("StartModuleWord", [])
  | .closeModule => ("EndModuleWord", [])
  | .remote _ _ runtime _ => ("RemoteWord", [("remote", .obj [
      ("runtime", .str runtime), ("isRemote", .bool true), ("isStandard", .bool false),
      ("availableIn", Json.strs [runtime])])])

/-- A word. -/
def word (w : Word) : Json :=
  let (kind, own) := wordKind w
  .obj ([("kind", .str kind), ("name", .str w.name), ("qualified", .str w.qualifiedName),
    ("module", text? w.label.home), ("profiled", .bool w.isProfiled),
    ("effect", text? w.label.effect), ("description", text? w.label.description),
    ("loc", option location w.label.location)] ++ own)

/-- A module with what it holds. -/
def module (s : Store) (i : Nat) : Json :=
  let m := s.module i
  .obj [("name", .str m.name), ("description", .str m.description), ("forthic", .str m.source),
    ("runtime_specific", .bool m.runtimeSpecific), ("initialized", .bool m.isReady),
    ("words", Json.strs (m.words.map Word.name)), ("exports", Json.strs m.exports),
    ("variables", .arr (m.cells.map fun v => .arr [.str v.1, value (s.fetch v.2)])),
    ("imports", .arr (m.imports.map fun x =>
      .arr [.str (s.module x.module).name, .str x.qualifier])),
    ("children", Json.strs (m.children.map (·.1)))]

/-- A line of a listing of modules. -/
def summary (m : ModuleSummary) : Json :=
  .obj [("name", .str m.name), ("description", .str m.description), ("wordCount", nat m.wordCount),
    ("runtimeSpecific", .bool m.runtimeSpecific)]

/-- The documentation of a module and its words. -/
def documentation (d : ModuleDoc) : Json :=
  .obj [("name", .str d.name), ("description", .str d.description),
    ("words", .arr (d.words.map fun w => .obj [("name", .str w.name),
      ("stackEffect", .str w.effect), ("description", .str w.description)]))]

/-- A stack effect. -/
def effect (e : StackEffect) : Json :=
  .obj [("inputCount", nat e.inputs.length), ("hasOptions", .bool e.hasOptions),
    ("inputs", Json.strs e.inputs), ("outputs", Json.strs e.outputs)]

/-- The problems found, and whether there are none. -/
def problems (errors : List String) : Json :=
  .obj [("valid", .bool errors.isEmpty), ("errors", Json.strs errors)]

end Wordstack.Inspect
