/-
Exchanges with other hosts: a request that a node makes, and what it makes of
the reply.
-/
import Workflow.Execution.Raised
import Workflow.Value.Methods

namespace Workflow.Node

inductive Content where
  | data (v : Value)
  | json (v : Value)
  deriving Inhabited

structure Outgoing where
  method : String
  url : Value
  headers : List (String × String)
  content : Content
  /-- The seconds after which it is given up. -/
  timeout : Value
  deriving Inhabited

/-- What becomes of a request. -/
inductive Reply where
  | timedOut
  | failed (message : String)
  /-- A response, and the milliseconds that it took. -/
  | response (status : Int) (headers : List (String × String)) (body : String) (elapsed : Nat)
  deriving Repr, DecidableEq, Inhabited

/-- The way to other hosts. -/
abbrev Transport := Outgoing → Reply

/-- A request with what is made of its reply. -/
structure Exchange where
  request : Outgoing
  conclude : Reply → Attempt Value

/-- Makes the request and concludes. -/
def Exchange.carryOut (e : Exchange) (t : Transport) : Attempt Value := e.conclude (t e.request)

/-- A field of a configuration; nothing when it is missing. -/
def get (props : Value) (name : String) : Attempt Value :=
  match props with
  | .dict entries => .ok ((Value.field? name entries).getD .none)
  | v => .error (.ofFault (.absentAttribute v.typeName "get"))

/-- A secret that a node cannot do without. -/
def requireSecret (secrets : Value) (name kind : String) : Attempt Value := do
  let v ← if secrets.truthy then get secrets name else .ok .none
  if v.truthy then return v
  else
    throw (.ofNode kind
      ("Missing secret '" ++ name ++ "' (set SECRET_" ++ name ++ " in the environment)") none)

end Workflow.Node
