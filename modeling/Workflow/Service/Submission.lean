/-
What clients of the service send: workflows to compile, and how they are to be
bundled.
-/
import Workflow.Json.Read
import Workflow.Schema.Check

namespace Workflow.Service

open Check

structure Reply where
  status : Nat
  body : Value
  deriving Inhabited

/-- A reply that only says what is wrong. -/
def Reply.refusal (status : Nat) (detail : Value) : Reply :=
  ⟨status, Value.ofFields [("detail", detail)]⟩

/-- A step into the body of a request. -/
def stepValue : PathStep → Value
  | .field name => .str name
  | .item index => .int index

/-- A problem with the body of a request. -/
def problemValue (p : Problem) : Value :=
  Value.ofFields [("type", .str p.defect.family), ("loc", .list (.str "body" :: p.path.map stepValue)),
    ("msg", .str p.defect.message), ("input", p.input)]

/-- The reply to a body with problems. -/
def problemsReply (ps : List Problem) : Reply := .refusal 422 (.list (ps.map problemValue))

/-- The reply to a body that is no JSON from the given place on. -/
def malformedReply (place : Nat) (reason : String) : Reply :=
  .refusal 422 (.list [Value.ofFields [("type", .str "json_invalid"),
    ("loc", .list [.str "body", .int place]), ("msg", .str "JSON decode error"),
    ("input", .dict []), ("ctx", Value.ofFields [("error", .str reason)])]])

/-- The value of a body; nothing when it is empty. -/
def readBody (data : List UInt8) : Except Reply Value :=
  if data.isEmpty then .ok .none
  else
    match Json.readBytes data with
    | .ok v => .ok v
    | .error (.unreadable text (.at problem left)) =>
      .error (malformedReply (text.length - left) problem.message)
    | .error _ => .error (.refusal 400 (.str "There was an error parsing the body"))

structure Submission where
  nodes : List Value
  edges : List Value
  deriving Inhabited

structure Order where
  submission : Submission
  workflowId : Option String
  workflowName : Option String
  minify : Option Bool
  deriving Inhabited

/-- A dictionary, as it is. -/
def dictionary : Check Value := fun v =>
  match v with
  | .dict entries => .ok (.dict entries)
  | v => .defect .noDict v

def submissionFields (entries : Entries) : Checked Submission :=
  Submission.mk <$> defaulted "nodes" "nodes" [] (listOf dictionary) entries <*>
    defaulted "edges" "edges" [] (listOf dictionary) entries

def orderFields (entries : Entries) : Checked Order :=
  Order.mk <$> submissionFields entries <*>
    defaulted "workflowId" "workflow_id" none (optional (text 0)) entries <*>
    defaulted "workflowName" "workflow_name" none (optional (text 0)) entries <*>
    defaulted "minify" "minify" none (optional flag) entries

def bodyRecord {α : Type} (fields : Entries → Checked α) : Check α := fun v =>
  match v with
  | .none => .defect .missing .none
  | .dict entries => fields entries
  | v => .defect .noFields v

/-- Reads a record from a body. -/
def readRecord {α : Type} (fields : Entries → Checked α) (data : List UInt8) : Except Reply α := do
  let v ← readBody data
  (bodyRecord fields v).toExcept.mapError problemsReply

end Workflow.Service
