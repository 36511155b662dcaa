import Wordstack.Machine.Execute
import Wordstack.Source.Scanner

/-!
# Running source text

- **Tokens** (`handleToken`, `runTokens`): each token is compiled into the open definition or
  executed; module brackets are executed in either case.
- **Recovery** (`runRecovering`): after a fault the handler runs, and the run goes on with the token
  after the one that failed, a limited number of times.
- **Runs** (`runSource`): a run that fails leaves no definition, bracket or block open that it
  opened. The outermost run also fails when a bracket is left open.
- **Pending modules** (`initializePending`): their sources are run before the first run.
- **Single words** (`executeWord`).
-/

namespace Wordstack

/-! ## Pending modules -/

/-- Runs the sources of at most `bound` pending modules in order. One that fails stays pending. -/
def drainPending (e : Nested) (bound : Nat) : Task Unit := do
  match bound with
  | 0 => return
  | bound + 1 =>
    match (← Task.interp).pending with
    | [] => return
    | m :: rest =>
      Task.update fun i => { i with pending := rest }
      match ← Task.attempt (Task.call (initializeModule e m)) with
      | .ok _ => drainPending e bound
      | .error f =>
        Task.update fun i => { i with pending := m :: i.pending }
        Task.throw f

/-- Runs the sources of all pending modules in order. -/
def initializePending (e : Nested) : Task Unit := do
  drainPending e (← Task.interp).pending.length

/-! ## Tokens -/

/-- Appends a word to the open definition. -/
def compile (w : Word) (location : Location) (d : OpenDefinition) : OpenDefinition :=
  { d with body := d.body ++ [(w, location)] }

/-- Compiles a word while a definition is open, otherwise executes it. -/
def handleWord (e : Nested) (w : Word) (location : Location) : Task Unit := do
  let i ← Task.interp
  match i.compiling, i.definition with
  | true, some d => Task.update fun i => { i with definition := some (compile w location d) }
  | _, _ => Task.call (dispatch e w (some location))

/-- Executes a word, and compiles it as well while a definition is open. -/
def handleImmediate (e : Nested) (w : Word) (location : Location) : Task Unit := do
  Task.update fun i =>
    if i.compiling then { i with definition := i.definition.map (compile w location) } else i
  Task.call (dispatch e w (some location))

/-- Opens a definition. -/
def startDefinition (t : Token) : Task Unit := do
  let i ← Task.interp
  if i.compiling then
    Task.throw (.missingSemicolon i.topInput (i.previous.or (some t.location)))
  else
    Task.update fun i =>
      { i with
        definition := some { name := t.text, location := t.location }
        compiling := true
        memoDefinition := t.kind = .startMemo }

/-- Closes the open definition and adds its word to the current module. -/
def endDefinition (t : Token) : Task Unit := do
  let i ← Task.interp
  match i.compiling, i.definition with
  | true, some d =>
    if i.memoDefinition then
      let m ← Task.current "addMemoWords"
      Task.updateStore fun s => s.addMemoWords m d.word
    else
      let m ← Task.current "addWord"
      Task.updateStore fun s => s.addWord m d.word
    Task.update fun i =>
      { i with compiling := false, memoDefinition := false, definition := none }
  | _, _ => Task.throw (.extraSemicolon i.topInput (some t.location))

/-- Does what a token asks for. -/
def handleToken (e : Nested) (t : Token) : Task Unit := do
  match t.kind with
  | .str => Task.handOn (handleWord e (.constant { name := "<string>" } (.str t.text)) t.location)
  | .dotSymbol =>
    Task.handOn (handleWord e (.constant { name := "<dot-symbol>" } (.str t.text)) t.location)
  | .comment => return
  | .startArray => Task.handOn (handleWord e .openArray t.location)
  | .endArray => Task.handOn (handleWord e .closeArray t.location)
  | .startModule => Task.handOn (handleImmediate e (.openModule t.text) t.location)
  | .endModule => Task.handOn (handleImmediate e .closeModule t.location)
  | .startDef | .startMemo => startDefinition t
  | .endDef => endDefinition t
  | .word =>
    let w ← Task.lift (← Task.view fun i s => i.resolve s t.text (some t.location))
    Task.handOn (handleWord e w t.location)
  | .eos =>
    let i ← Task.interp
    if i.compiling then
      Task.throw (.missingSemicolon i.topInput (i.previous.or (some t.location)))

/-- Handles the tokens of a scanner, at most `bound` of them, up to the end of the source. On a
fault the result is the fault and the scanner after the token that failed. -/
def runTokens (e : Nested) (bound : Nat) (sc : Scanner) : Task (Option (Fault × Scanner)) := do
  match bound with
  | 0 => Task.exhausted
  | bound + 1 =>
    match sc.next with
    | (.error f, sc) => return some (f, sc)
    | (.ok t, sc) =>
      match ← Task.attempt (Task.call (handleToken e t)) with
      | .error f => return some (f, sc)
      | .ok _ =>
        Task.update fun i => { i with previous := some t.location }
        if t.kind = .eos then return none else runTokens e bound sc

/-- Handles all tokens of a scanner; every token but the last takes a character at least. -/
def runAllTokens (e : Nested) (sc : Scanner) : Task (Option (Fault × Scanner)) :=
  runTokens e (sc.rest.length + 1) sc

/-- The number of attempts that a limit allows; a limit that no count reaches allows any number. -/
def attemptsAllowed (limit : Binary64) : Nat :=
  match limit.floor? with
  | some n => n.toNat
  | none => if limit = .infinite true then 0 else Nat.pow 2 53

/-- Handles the tokens of a scanner and recovers from faults; `left` attempts are left after the
`used` ones so far. -/
def runRecovering (e : Nested) (h : Handler) (left used : Nat) (sc : Scanner) : Task Unit := do
  match left with
  | 0 =>
    let i ← Task.interp
    Task.throw (.tooManyAttempts i.topInput (Binary64.ofInt (used + 1 : Nat)) i.maxAttempts)
  | left + 1 =>
    match ← Task.call (runAllTokens e sc) with
    | none => return
    | some (f, sc) =>
      Task.callCode false (perform e (h f))
      runRecovering e h left (used + 1) sc

/-! ## Runs -/

/-- Handles the tokens of a scanner, with recovery if the interpreter has a handler. -/
def runScanner (e : Nested) (sc : Scanner) : Task Unit := do
  let i ← Task.interp
  match i.recovery with
  | some h => Task.call (runRecovering e h (attemptsAllowed i.maxAttempts) 0 sc)
  | none =>
    match ← Task.call (runAllTokens e sc) with
    | none => return
    | some (f, _) => Task.throw f

/-- The fault of an outermost run that leaves a bracket open. -/
def checkBrackets (isOutermost : Bool) : Task Unit := do
  let i ← Task.interp
  if isOutermost && !i.marks.isEmpty then
    Task.throw (.unmatchedBracket i.topInput "[" i.previous)

/-- Runs source text. A run inside another one shares its stack and its compile state. -/
def runSource (e : Nested) (source : String) (origin : Location) : Task Unit := do
  let isOutermost ← Task.view fun i _ => i.inputs.isEmpty
  if isOutermost then Task.call (initializePending e)
  let sc := Scanner.start source origin
  let saved ← Task.view fun i _ => i.transient
  Task.update fun i => { i with inputs := sc.input :: i.inputs }
  let outcome ← Task.attempt (do runScanner e sc; checkBrackets isOutermost)
  match outcome with
  | .ok _ => Task.update fun i => { i with inputs := i.inputs.tail }
  | .error f =>
    Task.update fun i => { i.restore saved with inputs := i.inputs.tail }
    Task.throw f

/-- Resolves a name and executes its word once. -/
def executeWord (e : Nested) (name : String) : Task Unit := do
  Task.call (initializePending e)
  let w ← Task.lift (← Task.view fun i s => i.resolve s name none)
  Task.call (dispatch e w none)

end Wordstack
