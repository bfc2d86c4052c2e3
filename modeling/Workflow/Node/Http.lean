/-
Nodes that make a request and hand on the response.
-/
import Workflow.Node.Exchange
import Workflow.Table
import Workflow.Text.Case
import Workflow.Value.Arithmetic
import Workflow.Value.Sequence

namespace Workflow.Node

def httpKind : String := "http-request"

/-- The headers of a request: pairs of a key and a value, the last of which wins. -/
def headersOf (known : List (String × String)) : List Value → Attempt (List (String × String))
  | [] => .ok known
  | header :: rest => do
    let key ← get header "key"
    let value ← get header "value"
    headersOf (putEntry key.display value.display known) rest

/-- What a node makes of the reply. -/
def httpResult (timeout : Value) : Reply → Attempt Value
  | .timedOut =>
    .error (.ofNode httpKind ("Request timeout after " ++ timeout.display ++ "ms") (some .timeout))
  | .failed message =>
    .error (.ofNode httpKind ("HTTP request failed: " ++ message) (some .client))
  | .response status headers body elapsed =>
    .ok (Value.ofFields [("statusCode", .int status),
      ("headers", Value.ofFields (headers.map fun (k, v) => (k, .str v))), ("body", .str body),
      ("responseTime", .int elapsed)])

/-- The items of a list that may be missing. -/
def itemsOr (v : Value) : Attempt (List Value) :=
  if v.truthy then v.iterate.attempt else .ok []

/-- The exchange of a node. A `GET` has no content. -/
def http (props : Value) : Attempt Exchange := do
  let url ← get props "url"
  let method ← get props "method"
  let method := Text.toUpper (if method.truthy then method.display else "GET")
  let given ← get props "timeout"
  let timeout := if given.truthy then given else .int 30000
  if !url.truthy then throw (.ofNode httpKind "Missing URL" none)
  let headers ← headersOf [] (← itemsOr (← get props "headers"))
  let body ← get props "body"
  let data := if method ≠ "GET" && body.truthy then body else .none
  let seconds ← (Value.binary .div timeout (.int 1000)).attempt
  return {
    request := { method, url, headers, content := .data data, timeout := seconds }
    conclude := httpResult timeout }

end Workflow.Node
