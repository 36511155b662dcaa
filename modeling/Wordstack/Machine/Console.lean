/-!
# Console and log levels

- **Lines** (`ConsoleLine`): what a program writes, each on one of four streams.
- **Levels** (`LogLevel`): from silent to debug. A log line is written when its level is not above
  the one that is set.
- **Log lines** (`logLine?`): the scope in brackets, then the message.
-/

namespace Wordstack

/-- The streams of the console. -/
inductive Stream where
  | log
  | warn
  | error
  | debug
deriving DecidableEq

/-- A line on the console. -/
structure ConsoleLine where
  stream : Stream
  text : String
deriving DecidableEq

/-- How much is logged. -/
inductive LogLevel where
  | silent
  | error
  | warn
  | info
  | debug
deriving DecidableEq

namespace LogLevel

/-- The levels from the least to the most talkative one, with their names. -/
def named : List (String × LogLevel) :=
  [("silent", silent), ("error", error), ("warn", warn), ("info", info), ("debug", debug)]

/-- The place of a level in the order. -/
def rank : LogLevel → Nat
  | silent => 0
  | error => 1
  | warn => 2
  | info => 3
  | debug => 4

/-- The name of a level. -/
def name : LogLevel → String
  | silent => "silent"
  | error => "error"
  | warn => "warn"
  | info => "info"
  | debug => "debug"

/-- The level of a name. -/
def ofName? (s : String) : Option LogLevel := named.lookup s

/-- The stream that lines of a level go to. -/
def stream : LogLevel → Stream
  | silent | info => .log
  | error => .error
  | warn => .warn
  | debug => .debug

end LogLevel

/-- The line for a message of a level, if lines of that level are written. -/
def logLine? (current level : LogLevel) (scope message : String) : Option ConsoleLine :=
  if level.rank ≤ current.rank then some ⟨level.stream, "[" ++ scope ++ "] " ++ message⟩ else none

end Wordstack
