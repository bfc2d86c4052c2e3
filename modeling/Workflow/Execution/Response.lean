/-
Responses.
-/
import Workflow.Execution.Raised
import Workflow.Json.Read
import Workflow.Json.Write

namespace Workflow

structure Response where
  status : Int
  headers : List (String × String) := []
  body : List UInt8 := []
  deriving Repr, DecidableEq, Inhabited

namespace Response

/-- A response with a JSON body. -/
def json (data : Value) (status : Int) : Attempt Response := do
  let text ← (Json.write data).attempt
  return { status, headers := [("content-type", "application/json")], body := Text.encodeUtf8 text }

def empty (status : Int) : Response := { status }

/-- A response that reports an error, with the log so far. -/
def failure (code message : Value) (status : Int) (logs : Value) : Attempt Response :=
  json (Value.ofFields
    [("success", .bool false), ("error", Value.ofFields [("code", code), ("message", message)]),
     ("logs", if logs.truthy then logs else .list [])]) status

def text (r : Response) : Attempt String :=
  match Text.decodeUtf8 r.body with
  | .ok s => .ok s
  | .error e => .error (.ofFault (Value.utf8Fault e))

/-- The error of bytes that are no JSON. -/
def jsonError : Json.BytesFailure → Raised
  | .undecodable (some e) => .ofFault (Value.utf8Fault e)
  | .undecodable none => { kind := .fault .badEncoding, message := "" }
  | .unreadable text failure =>
    let kind := match failure with
      | .at .. => ErrorKind.badJson
      | .tooManyDigits _ => .fault .badValue
    { kind, message := failure.message text }

/-- The body read as JSON; nothing when it is empty. -/
def readJson (r : Response) : Attempt Value :=
  if r.body.isEmpty then .ok .none
  else
    match Json.readBytes r.body with
    | .ok v => .ok v
    | .error e => .error (jsonError e)

end Response

end Workflow
