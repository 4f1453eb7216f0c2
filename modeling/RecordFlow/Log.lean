/-!
# Log entries

What an operation reports beside its result. Operations return their entries in order.
-/
namespace RecordFlow

inductive Level where
  | trace
  | debug
  | warn
deriving DecidableEq, Repr

structure LogEntry where
  level : Level
  text : String
deriving DecidableEq, Repr

abbrev Log := List LogEntry

def Level.name : Level → String
  | trace => "TRACE"
  | debug => "DEBUG"
  | warn => "WARN"

def LogEntry.line (e : LogEntry) : String := e.level.name ++ " " ++ e.text

end RecordFlow
