/-
The log of a run.
-/
import Workflow.Execution.Raised

namespace Workflow

/-- How grave an entry of the log is. -/
inductive LogLevel where
  | info
  | debug
  | warn
  | error
  deriving Repr, DecidableEq, Inhabited

def LogLevel.name : LogLevel → String
  | info => "info"
  | debug => "debug"
  | warn => "warn"
  | error => "error"

structure LogEntry where
  level : LogLevel
  message : String
  data : Value
  workflowId : String
  executionId : String
  deriving Inhabited

/-- The log of a run: the entries so far, and whose they are. -/
structure Log where
  workflowId : String
  executionId : String
  entries : List LogEntry := []
  deriving Inhabited

namespace Log

def record (l : Log) (level : LogLevel) (message : String) (data : Value) : Log :=
  { l with entries := l.entries ++ [⟨level, message, data, l.workflowId, l.executionId⟩] }

/-- What is recorded of an error. -/
def errorData (e : Raised) : Value :=
  Value.ofFields [("message", .str e.message), ("type", .str e.kind.name)]

def recordError (l : Log) (message : String) (e : Raised) : Log :=
  l.record .error message (errorData e)

end Log

def LogEntry.toValue (e : LogEntry) : Value :=
  Value.ofFields
    [("level", .str e.level.name), ("message", .str e.message), ("data", e.data),
     ("workflowId", .str e.workflowId), ("executionId", .str e.executionId)]

end Workflow
