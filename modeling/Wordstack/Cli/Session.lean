import Wordstack.Bridge.Network
import Wordstack.Cli.Arguments
import Wordstack.Config.Load
import Wordstack.Machine.Evaluation
import Wordstack.Module.Load
import Wordstack.Vocabulary.Remote

/-!
# The command

- **Output** (`Output`): text on standard output or standard error.
- **Start** (`Cli.start`): reads the files that the arguments name; runs a text once, or begins a
  session.
- **Sessions** (`Session`, `Session.answer`): each line is a command of the session or source text.
-/

namespace Wordstack

/-- Text that the command writes. -/
structure Output where
  toError : Bool
  text : String
deriving DecidableEq

namespace Output

/-- A line on standard output. -/
def line (text : String) : Output := ⟨false, text ++ "\n"⟩

/-- A line on standard error. -/
def errorLine (text : String) : Output := ⟨true, text ++ "\n"⟩

/-- A line of the console: warnings and errors go to standard error. -/
def ofConsole (l : ConsoleLine) : Output :=
  match l.stream with
  | .warn | .error => errorLine l.text
  | .log | .debug => line l.text

/-- The value on a line of its own, for each value. -/
def ofStack (vs : List Val) : List Output := vs.map fun v => line v.display

/-- The report of a fault that ends the command. -/
def fatal (f : Fault) : Output := errorLine ("Fatal error: " ++ f.message)

end Output

/-- The lines on the console in order, and the store without them. -/
def Store.takeConsole (s : Store) : List ConsoleLine × Store :=
  (s.console.reverse, { s with console := [] })

/-! ## Interpreters -/

/-- The factories of the modules that a configuration can name. -/
def standardFactories : Factories :=
  ⟨[("forthic.client:remote_runtime", fun _ => .ok (connectionModule .own))]⟩

/-- An interpreter with the modules of a configuration. The store remains even after a fault. -/
def configuredInterp (c : Config) (s : Store) : Except Fault Interp × Store :=
  match loadModules standardFactories c.modules s with
  | (.error f, s) => (.error f, s)
  | (.ok modules, s) =>
    let settings :=
      { zone := some c.interpreter.zone, maxAttempts := some c.interpreter.maxAttempts }
    match Interp.standard s settings modules with
    | .ok (i, s) => (.ok i, s)
    | .error f => (.error f, s)

/-- Runs source text on an interpreter. A run that does not end leaves no values. -/
def runOn (source : String) (i : Interp) (s : Store) : Evaluation × Interp × Store :=
  match (evaluate machine source).finish i s with
  | .ended (.ok outcome) i s => (outcome, i, s)
  | .ended (.fault f) i s => (⟨i.stack.toList, some f⟩, i, s)
  | .ended .exhausted i s =>
    (⟨i.stack.toList, some .tooDeep⟩, { i with inputs := [] }, s)
  | .hung s => (⟨[], none⟩, i, s)

/-- The line about a fault of a run. -/
def Output.failure (source : String) (f : Fault) : Output :=
  .errorLine (f.errorType ++ ": " ++ f.shown source)

/-! ## Sessions -/

/-- An interactive session. -/
structure Session where
  config : Config
  interp : Interp
  store : Store

/-- How the command goes on after a line. -/
inductive Progress where
  | goOn (s : Session)
  | ended (code : Nat)

namespace Session

/-- What stands before each line. -/
def prompt : Output := ⟨false, "forthic> "⟩

/-- Begins a session: an interpreter, and what was written while it was made. -/
def begin (c : Config) (s : Store) : List Output × Except Fault Session :=
  let (made, s) := configuredInterp c s
  let (lines, s) := s.takeConsole
  (lines.map .ofConsole, made.map fun i => ⟨c, i, s⟩)

/-- Runs a line of source text. -/
def run (s : Session) (source : String) : List Output × Session :=
  let (outcome, i, store) := runOn source s.interp s.store
  let (lines, store) := store.takeConsole
  let failure := (outcome.fault.map (Output.failure source)).toList
  (lines.map .ofConsole ++ failure ++ Output.ofStack outcome.stack,
    { s with interp := i, store })

/-- Takes a line, and prompts for the next one. -/
def answer (s : Session) (text : String) : List Output × Progress :=
  let next := fun (outputs : List Output) (s : Session) => (outputs ++ [prompt], Progress.goOn s)
  match Text.trim text with
  | ".quit" | ".exit" => ([], .ended 0)
  | ".stack" => next (Output.ofStack s.interp.stack.toList) s
  | ".clear" => next [] { s with interp := { s.interp with stack := {} } }
  | ".reset" =>
    match begin s.config s.store with
    | (outputs, .ok s) => next outputs s
    | (outputs, .error f) => (outputs ++ [.fatal f], .ended 1)
  | "" => next [] s
  | source =>
    let (outputs, s) := s.run source
    next outputs s

/-- Takes lines in order until the session ends. -/
def converse (s : Session) : List String → List Output × Progress
  | [] => ([], .goOn s)
  | line :: rest =>
    match s.answer line with
    | (outputs, .goOn s) =>
      let (more, progress) := s.converse rest
      (outputs ++ more, progress)
    | ended => ended

end Session

namespace Cli

/-- Characters up to the end of a line, and what follows it. A line ends with a line feed, a
carriage return or both. -/
def splitLines (line : List Char) : List Char → List String
  | [] => if line.isEmpty then [] else [String.ofList line.reverse]
  | '\r' :: '\n' :: rest => String.ofList line.reverse :: splitLines [] rest
  | '\r' :: rest => String.ofList line.reverse :: splitLines [] rest
  | '\n' :: rest => String.ofList line.reverse :: splitLines [] rest
  | c :: rest => splitLines (c :: line) rest

/-- The lines of the input of a session. -/
def inputLines (text : String) : List String := splitLines [] text.toList

/-! ## Start -/

/-- What the command does first: it ends with a code, or begins a session. -/
abbrev Start := List Output × Progress

/-- Runs source text once. -/
def runOnce (p : Plan) (c : Config) (s : Store) (source : String) : Start :=
  let opening := if p.verbose then [Output.line "Executing..."] else []
  match Session.begin c s with
  | (outputs, .error f) => (opening ++ outputs ++ [.fatal f], .ended 1)
  | (outputs, .ok session) =>
    let (outcome, _, store) := runOn source session.interp session.store
    let written := store.takeConsole.1.map .ofConsole
    let all := opening ++ outputs ++ written ++ Output.ofStack outcome.stack
    match outcome.fault with
    | none => (all, .ended 0)
    | some f => (all ++ [.failure source f], .ended 1)

/-- Begins a session. -/
def openSession (c : Config) (s : Store) : Start :=
  match Session.begin c s with
  | (outputs, .error f) => (outputs ++ [.fatal f], .ended 1)
  | (outputs, .ok session) =>
    (outputs ++ [.line (versionText ++ " - type .quit to exit"), Session.prompt], .goOn session)

/-- The source text that a plan runs. -/
def sourceOf (p : Plan) : Reading (Option String) := do
  match p.file with
  | some file => return some (← Reading.text file)
  | none => return p.code

/-- Does what a plan says under a valid configuration. -/
def carryOut (p : Plan) (c : Config) (s : Store) : Reading Start := do
  let s := { s with level := c.level }
  match p.mode with
  | .session => return openSession c s
  | .serve => return ([.fatal (.error "Serving needs a network")], .ended 1)
  | .once =>
    match ← (sourceOf p).attempt with
    | .error f => return ([.fatal f], .ended 1)
    | .ok none => return ([.errorLine "Error: No code or file specified"], .ended 1)
    | .ok (some source) => return runOnce p c s source

/-- Checks the configuration of a plan and carries it out. -/
def runPlan (p : Plan) (env : Environment) (s : Store) : Reading Start := do
  match ← (Config.load env p.configFile (some p.overrides)).attempt with
  | .error f => return ([.fatal f], .ended 1)
  | .ok c =>
    let warnings := c.warnings.map fun w => Output.errorLine ("Warning: " ++ w)
    let problems := c.problems
    if problems.isEmpty then
      let (outputs, progress) ← carryOut p c s
      return (warnings ++ outputs, progress)
    else
      return (warnings ++ problems.map fun e => Output.errorLine ("Config error: " ++ e), .ended 2)

/-- The start of the command with its arguments. -/
def start (args : List String) (env : Environment) (s : Store) : Reading Start := do
  let a := Arguments.read args
  if a.help then return ([.line helpText], .ended 0)
  else if a.version then return ([.line versionText], .ended 0)
  else if a.errors.isEmpty then runPlan a.plan env s
  else
    return (a.errors.map (fun e => Output.errorLine ("Error: " ++ e)) ++
      [.errorLine "Run with --help for usage."], .ended 2)

/-- Everything that the command writes, and its exit code, when its whole input is known. -/
def transcript (args : List String) (env : Environment) (input : String) (s : Store) :
    Reading (List Output × Nat) := do
  match ← start args env s with
  | (outputs, .ended code) => return (outputs, code)
  | (outputs, .goOn session) =>
    match session.converse (inputLines input) with
    | (more, .ended code) => return (outputs ++ more, code)
    | (more, .goOn _) => return (outputs ++ more, 0)

end Cli

end Wordstack
