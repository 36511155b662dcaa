import Wordstack.Fault.Report
import Wordstack.Source.Location
import Wordstack.Binary64.Show

/-!
# Faults

Everything that can end a computation early.

- **Faults** (`Fault`): the faults of the engine, one constructor per cause with what is known
  about it; stops on purpose; errors and bare texts raised by word implementations.
- **Views** (`Fault.kindName`, `Fault.message`, `Fault.location?`, `Fault.cause?`, …).
- **Causes** (`Fault.causes`, `Fault.root`): the faults that led to a fault, and the innermost.
- **Reports** (`Fault.report`): the fault as it leaves a runtime.
-/

namespace Wordstack

/-- The cause of a failed computation. `source` is the outermost text being run, empty when there
is none. -/
inductive Fault where
  /-- A fault of the engine without a kind of its own. -/
  | general (source note : String) (location : Option Location) (cause : Option Fault)
  | tokenize (source note : String) (location : Option Location)
  | unterminatedString (source : String) (location : Option Location)
  | invalidWordName (source note : String) (location : Option Location)
  | unmatchedBracket (source bracket : String) (location : Option Location)
  | unknownWord (source word : String) (scope : List String) (location : Option Location)
  /-- A word implementation raised an error of its own. -/
  | nativeWord (word module underlying : String) (cause : Option Fault) (location : Option Location)
  /-- An entry of a definition failed: where the definition was called and where the entry is. -/
  | wordExecution (note : String) (inner : Option Fault)
      (location definitionLocation : Option Location)
  | stackUnderflow (source : String) (location : Option Location)
  | badOptions (note : String)
  | badStackEffect (effect note : String)
  | invalidVariableName (source name : String) (location : Option Location)
  | missingSemicolon (source : String) (location : Option Location)
  | extraSemicolon (source : String) (location : Option Location)
  | unknownModule (source module : String) (location : Option Location)
  /-- The source of a module failed. -/
  | moduleFailed (module : String) (cause : Option Fault)
  /-- A configured module could not be built. -/
  | moduleLoad (module reason : String) (cause : Option Fault)
  | tooManyAttempts (source : String) (attempts limit : Binary64)
  | wireFormat (note : String)
  | requestTimeout (method : String) (milliseconds : Binary64)
  /-- Another runtime ran the request and reported a failure. -/
  | remoteExecution (report : Report)
  /-- Another runtime could not be reached or did not answer in protocol. -/
  | remoteRuntime (address note : String) (cause : Option Fault)
  /-- A stop on purpose. -/
  | stopped (message : String)
  /-- An error of a word implementation or of the host, with its kind. -/
  | host (kind message : String)
  /-- A bare text raised by a word implementation. -/
  | thrown (text : String)

namespace Fault

instance : Inhabited Fault := ⟨thrown ""⟩

/-- An error of a wrong type. -/
def typeError (message : String) : Fault := host "TypeError" message

/-- An error of no special kind. -/
def error (message : String) : Fault := host "Error" message

/-- What is said of a word name that breaks no special rule. -/
def invalidName : String := "Invalid word name"

/-- The name of the kind of a fault; a bare text has none. -/
def kindName? : Fault → Option String
  | general .. => some "ForthicError"
  | tokenize .. => some "TokenizeError"
  | unterminatedString .. => some "UnterminatedStringError"
  | invalidWordName .. => some "InvalidWordNameError"
  | unmatchedBracket .. => some "UnmatchedBracketError"
  | unknownWord .. => some "UnknownWordError"
  | nativeWord .. => some "NativeWordError"
  | wordExecution .. => some "WordExecutionError"
  | stackUnderflow .. => some "StackUnderflowError"
  | badOptions .. => some "OptionsError"
  | badStackEffect .. => some "StackEffectError"
  | invalidVariableName .. => some "InvalidVariableNameError"
  | missingSemicolon .. => some "MissingSemicolonError"
  | extraSemicolon .. => some "ExtraSemicolonError"
  | unknownModule .. => some "ModuleImportError"
  | moduleFailed .. => some "ModuleError"
  | moduleLoad .. => some "ModuleLoadError"
  | tooManyAttempts .. => some "TooManyAttemptsError"
  | wireFormat .. => some "WireFormatError"
  | requestTimeout .. => some "RequestTimeoutError"
  | remoteExecution .. => some "RemoteExecutionError"
  | remoteRuntime .. => some "RemoteRuntimeError"
  | stopped .. => some "IntentionalStopError"
  | host kind _ => some kind
  | thrown .. => none

/-- The kind of a fault in results and reports: a bare text counts as an error of no special
kind. -/
def errorType (f : Fault) : String := f.kindName?.getD "Error"

/-- Whether the engine raised the fault. -/
def isEngine : Fault → Bool
  | stopped .. | host .. | thrown .. => false
  | _ => true

/-- Whether the fault is a stop on purpose. -/
def isStop : Fault → Bool
  | stopped .. => true
  | _ => false

/-- The message of a fault. -/
def message : Fault → String
  | general _ note .. => note
  | tokenize _ note .. => note
  | unterminatedString .. => "Unterminated string"
  | invalidWordName _ note .. => note
  | unmatchedBracket _ bracket .. => "Unmatched '" ++ bracket ++ "'"
  | unknownWord _ word scope _ =>
    "Unknown word: " ++ word ++
      (if scope.isEmpty then "" else " (searched: " ++ Text.join " > " scope ++ ")")
  | nativeWord word module underlying .. =>
    "Error in " ++ (if module.isEmpty then "" else module ++ ".") ++ word ++ ": " ++ underlying
  | wordExecution note .. => note
  | stackUnderflow .. => "Stack underflow"
  | badOptions note => note
  | badStackEffect effect note => note ++ ": " ++ effect
  | invalidVariableName _ name _ => "Invalid variable name: " ++ name
  | missingSemicolon .. => "Missing semicolon"
  | extraSemicolon .. => "Extra semicolon"
  | unknownModule _ module _ => "Unknown module: " ++ module
  | moduleFailed module (some cause) => "Error in module " ++ module ++ ": " ++ cause.message
  | moduleFailed module none => "Error in module " ++ module ++ ": undefined"
  | moduleLoad module reason _ => "Failed to load module '" ++ module ++ "': " ++ reason
  | tooManyAttempts _ attempts limit =>
    "Too many recovery attempts: " ++ attempts.toText ++ " of " ++ limit.toText
  | wireFormat note => note
  | requestTimeout method ms => method ++ " timed out after " ++ ms.toText ++ "ms"
  | remoteExecution report => report.summary
  | remoteRuntime address note _ => "Remote runtime at " ++ address ++ ": " ++ note
  | stopped message => message
  | host _ message => message
  | thrown text => text

/-- The outermost text being run, empty when none is known. -/
def sourceText : Fault → String
  | general source .. | tokenize source .. | unterminatedString source .. |
    invalidWordName source .. | unmatchedBracket source .. | unknownWord source .. |
    stackUnderflow source .. | invalidVariableName source .. | missingSemicolon source .. |
    extraSemicolon source .. | unknownModule source .. | tooManyAttempts source .. => source
  | _ => ""

/-- Where the fault was raised. -/
def location? : Fault → Option Location
  | general _ _ location _ | tokenize _ _ location | unterminatedString _ location |
    invalidWordName _ _ location | unmatchedBracket _ _ location | unknownWord _ _ _ location |
    nativeWord _ _ _ _ location | wordExecution _ _ location _ | stackUnderflow _ location |
    invalidVariableName _ _ location | missingSemicolon _ location | extraSemicolon _ location |
    unknownModule _ _ location => location
  | _ => none

/-- Where the failing entry of a definition is. -/
def definitionLocation? : Fault → Option Location
  | wordExecution _ _ _ location => location
  | _ => none

/-- The fault that led to this one. -/
def cause? : Fault → Option Fault
  | general _ _ _ cause | nativeWord _ _ _ cause _ | wordExecution _ cause _ _ |
    moduleFailed _ cause | moduleLoad _ _ cause | remoteRuntime _ _ cause => cause
  | _ => none

/-- The innermost fault along the causes. -/
def root : Fault → Fault
  | general _ _ _ (some cause) | nativeWord _ _ _ (some cause) _ |
    wordExecution _ (some cause) _ _ | moduleFailed _ (some cause) |
    moduleLoad _ _ (some cause) | remoteRuntime _ _ (some cause) =>
    cause.root
  | f => f

/-- The causes of a fault, the nearest first. -/
def causes : Fault → List Fault
  | general _ _ _ (some cause) | nativeWord _ _ _ (some cause) _ |
    wordExecution _ (some cause) _ _ | moduleFailed _ (some cause) |
    moduleLoad _ _ (some cause) | remoteRuntime _ _ (some cause) =>
    cause :: cause.causes
  | _ => []

/-- The module that a fault is about, if it has a name. -/
def moduleName? : Fault → Option String
  | nativeWord _ module .. | unknownModule _ module _ | moduleFailed module _ |
    moduleLoad module .. => if module.isEmpty then none else some module
  | _ => none

/-- The name of this runtime in reports. -/
def runtimeName : String := "typescript"

/-- The fault as it leaves the runtime. The context given is set over what the fault itself says
about its root. -/
def report (f : Fault) (context : List (String × String)) : Report where
  message := f.message
  runtime := runtimeName
  stackTrace := []
  errorType := f.errorType
  wordLocation := f.location?.map Location.toText
  moduleName := f.moduleName?
  context :=
    let inner := if f.cause?.isSome then
      [("root_error_type", f.root.kindName?.getD "string"), ("root_message", f.root.message)]
    else []
    Report.contextOf (inner ++ context)

end Fault

end Wordstack
