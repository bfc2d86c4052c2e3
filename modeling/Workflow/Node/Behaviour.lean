/-
What nodes do, by the module that their kind is registered with: a module that
ships with the bundler, or one given as text.
-/
import Workflow.Bundle.Registry
import Workflow.Execution.Run
import Workflow.Node.Code
import Workflow.Node.Email

namespace Workflow.Node

/-- What the nodes of a shipped module do. -/
def shippedResult? (t : Transport) (module : String) (props secrets : Value) :
    Option (Attempt Value) :=
  if module = Bundle.requestNodeModule then some do (← http props).carryOut t
  else if module = Bundle.emailNodeModule then some do (← email props secrets).carryOut t
  else if module = Bundle.codeNodeModule then some (code props secrets)
  else none

/-- The errors that a node module may raise. -/
def moduleErrors : List (String × ErrorKind) :=
  ("NodeExecutionError", .node none) :: Snippet.commonErrors

/-- What a node module given as text does. -/
def scriptResult (source : String) (props secrets : Value) : Attempt Value := do
  let body ← readCode source
  match Snippet.function? "execute" body with
  | none => throw (.ofFault (.unboundName "execute"))
  | some f =>
    let scope : Snippet.Scope := { names := [], errors := moduleErrors }
    let run : Snippet.Script Value := do
      let _ ← Snippet.runBlock (body.filter (·.definedName?.isNone))
      f.call "execute" [props, secrets]
    (run.run.run scope).1

/-- What nodes do whose kinds are registered. -/
def behaviour (r : Bundle.Registry) (t : Transport) : Behaviour := fun _ call =>
  let missing : Attempt Value := .error (.ofFault (.unboundName call.kind))
  match r.resolve (Handler.nodeModule call.kind) with
  | none => missing
  | some module =>
    match r.providers.lookup module with
    | some (some source) => scriptResult source call.props call.secrets
    | _ => (shippedResult? t module call.props call.secrets).getD missing

end Workflow.Node
