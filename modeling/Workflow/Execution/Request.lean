/-
Requests: what a handler is called with, and how their bodies are read.
-/
import Workflow.Execution.Form
import Workflow.Execution.Raised
import Workflow.Json.Read
import Workflow.Table
import Workflow.Text.Blank
import Workflow.Text.Case

namespace Workflow

/-- A request. Its method is in upper case and its header names in lower case. -/
structure Request where
  method : String
  path : String
  headers : List (String × String)
  query : List (String × String)
  body : List UInt8
  deriving Repr, DecidableEq, Inhabited

namespace Request

def make (method path : String) (headers query : List (String × String)) (body : List UInt8) :
    Request :=
  { method := Text.toUpper method, path,
    headers := headers.foldl (fun known (k, v) => putEntry (Text.toLower k) v known) [],
    query, body }

/-- The value of a header, in whatever case it is asked for. -/
def header? (r : Request) (name : String) : Option String := r.headers.lookup (Text.toLower name)

/-- The part of a text before the first blank, and what follows it. -/
def cutAtSpace (s : String) : String × String :=
  let cs := s.toList
  (String.ofList (cs.takeWhile (· ≠ ' ')), String.ofList ((cs.dropWhile (· ≠ ' ')).drop 1))

/-- The token of a bearer authorization, if the request carries one that is not blank. -/
def bearerToken (r : Request) : Option String :=
  let (scheme, token) := cutAtSpace (Text.trim ((r.header? "authorization").getD ""))
  let token := Text.trim token
  if Text.toLower scheme ≠ "bearer" ∨ token.isEmpty then none else some token

/-- The body read as JSON; an empty object when it is missing, malformed or nothing. -/
def jsonBody (r : Request) : Value :=
  if r.body.isEmpty then .dict []
  else
    match Json.readBytes r.body with
    | .error _ => .dict []
    | .ok .none => .dict []
    | .ok v => v

/-- The type of a body without its parameters. -/
def contentType (r : Request) : String :=
  Text.toLower (Text.trim (((r.header? "content-type").getD "").splitOn ";" |>.headD ""))

/-- The body read as its type says: JSON, form data, text, or the bytes themselves. -/
def readBody (r : Request) : Attempt Value :=
  let type := r.contentType
  if type = "application/json" ∨ type.endsWith "+json" then .ok r.jsonBody
  else if type = "application/x-www-form-urlencoded" then
    match Text.decodeUtf8 r.body with
    | .ok text =>
      .ok (Value.dictOf ((Form.fields text).map fun (k, v) => (.str k, .str v)))
    | .error e => .error (.ofFault (Value.utf8Fault e))
  else if type.startsWith "text/" then .ok (.str (Text.decodeLossy r.body))
  else .ok (.bytes r.body)

end Request

end Workflow
