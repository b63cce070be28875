/-!
# Journal

What the program says about its own doings while it works.

- `LogEntry` : one line with its level
- `Journal`  : the lines so far, the latest last
-/

namespace Peaks

inductive LogLevel
  | debug
  | warning
  deriving DecidableEq, Repr

def LogLevel.name : LogLevel → String
  | .debug => "DEBUG"
  | .warning => "WARNING"

structure LogEntry where
  level : LogLevel
  text : String
  deriving DecidableEq, Repr

abbrev Journal := List LogEntry

namespace Journal

def debug (j : Journal) (text : String) : Journal :=
  j ++ [{ level := .debug, text := text }]

def warning (j : Journal) (text : String) : Journal :=
  j ++ [{ level := .warning, text := text }]

end Journal

end Peaks
