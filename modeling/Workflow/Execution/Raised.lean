/-
The errors that end a run, and the form in which a response reports them.
-/
import Workflow.Formula.Basic
import Workflow.Value.Fault
import Workflow.Value.Text

namespace Workflow

/-- The family of an error. -/
inductive ErrorKind where
  /-- Values that do not fit together. -/
  | fault (kind : FaultKind)
  | runtime
  | badJson
  /-- A formula that cannot be evaluated. -/
  | formula
  /-- A step that failed; `nodeKind` is the kind of its node, if known. -/
  | node (nodeKind : Option String)
  | noEntryPoint
  | unsupportedTrigger
  | timeout
  | client
  deriving Repr, DecidableEq, Inhabited

namespace ErrorKind

def name : ErrorKind → String
  | fault kind => kind.name
  | runtime => "RuntimeError"
  | badJson => "JSONDecodeError"
  | formula => "ExpressionError"
  | node _ => "NodeExecutionError"
  | noEntryPoint => "NoEntryPointError"
  | unsupportedTrigger => "UnsupportedTriggerError"
  | timeout => "TimeoutError"
  | client => "ClientError"

/-- The code that all errors of a family carry. -/
def code? : ErrorKind → Option String
  | node _ => some "NODE_EXECUTION_ERROR"
  | noEntryPoint => some "NO_ENTRY_POINT"
  | unsupportedTrigger => some "UNSUPPORTED_TRIGGER"
  | _ => none

end ErrorKind

/-- An error: its family, its wording, the code set on it if any, and what it arose from. -/
structure Raised where
  kind : ErrorKind
  message : String
  code : Option Value := none
  cause : Option ErrorKind := none
  deriving Inhabited

namespace Raised

def ofFault (f : Fault) : Raised := { kind := .fault f.kind, message := f.message }

/-- The error of a formula that a fault stopped. -/
def ofFormula (f : Fault) : Raised :=
  { kind := .formula, message := Formula.failureMessage f, cause := some (.fault f.kind) }

def ofNode (nodeKind message : String) (cause : Option ErrorKind) : Raised :=
  { kind := .node (some nodeKind), message, cause }

/-- The wording of an error that is given values: none, one, or several as a tuple. A missing key
is shown as a literal. -/
def wording (kind : ErrorKind) : List Value → String
  | [] => ""
  | [v] => if kind = .fault .missingKey then v.literal else v.display
  | args => (Value.tuple args).literal

/-- The error of a family with the values it is given. Some families make their own wording from
them. -/
def ofArguments (kind : ErrorKind) (args : List Value) : Raised :=
  match kind, args with
  | .noEntryPoint, [] => { kind, message := "No trigger node found in workflow" }
  | .unsupportedTrigger, v :: _ => { kind, message := "Unsupported trigger type: " ++ v.display }
  | .node _, v :: rest =>
    let nodeKind := match rest with
      | .str s :: _ => some s
      | _ => none
    { kind := .node nodeKind, message := v.display }
  | kind, args => { kind, message := wording kind args }

/-- The code of an error: the one set on it or that of its family, if it is a text, or else a
general one. -/
def reportedCode (e : Raised) : String :=
  let general := if e.kind = .formula then "EXPRESSION_ERROR" else "EXECUTION_ERROR"
  match e.code with
  | some (.str s) => s
  | some _ => general
  | none => e.kind.code?.getD general

/-- The wording of an error in a report: an empty one is replaced by the name of its family. -/
def reportedMessage (e : Raised) : String := if e.message.isEmpty then e.kind.name else e.message

/-- The report of an error, with the step at which it arose if that is known. -/
def report (e : Raised) (step : Option String) : List (String × Value) :=
  [("code", .str e.reportedCode), ("message", .str e.reportedMessage)] ++
    (match step with
      | some s => [("step", .str s)]
      | none => []) ++ [("details", .bool true)]

end Raised

/-- A computation that may end in an error. -/
abbrev Attempt := Except Raised

/-- A computation on values as one that may end in an error. -/
def Outcome.attempt {α : Type} : Outcome α → Attempt α
  | .ok a => .ok a
  | .error f => .error (.ofFault f)

end Workflow
