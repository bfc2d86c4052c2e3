/-
Nodes that run a snippet of the user.

The snippet is the body of a function whose parameters are the function for
printing, the secrets, and the variables that the node asks for.
-/
import Workflow.Formula.Basic
import Workflow.Node.Http
import Workflow.Node.Snippet
import Workflow.Source.Statement
import Workflow.Source.Validity
import Workflow.Text.Lines

namespace Workflow.Node

def codeKind : String := "code"

/-- The name of the function that a snippet becomes. -/
def codeFunction : String := "__code_node__"

/-- A text with every line that is not blank moved to the right. -/
def indentLines (code : String) : String :=
  String.join ((Text.lines code).map fun line => if Text.allBlank line then line else "    " ++ line)

/-- The source of the function that a snippet becomes. -/
def codeSource (names : List String) (code : String) : String :=
  let body := if Text.allBlank code then "    return None" else indentLines code
  "async def " ++ codeFunction ++ "(" ++ ", ".intercalate (["print", "secrets"] ++ names) ++ "):\n" ++
    body ++ "\n"

def readCode (source : String) : Attempt (List Source.Stmt) :=
  match Source.readScript source with
  | .error e => .error (.ofFault (Formula.sourceFault e))
  | .ok body => if Source.isValid body then .ok body else .error (.ofFault .sourceError)

/-- The values of the variables that a node asks for. -/
def codeArguments (given : Value) (names : List String) : Attempt (List Value) :=
  names.mapM fun name => get (if given.truthy then given else .dict []) name

/-- Runs a snippet and gives its output with what it printed. -/
def runCode (names : List String) (code : String) (given secrets : Value) :
    Attempt (Value × List String) := do
  let body ← readCode (codeSource names code)
  let args ← codeArguments given names
  match Snippet.function? codeFunction body with
  | none => throw (.ofFault (.absentKey (Text.quoted codeFunction)))
  | some f =>
    let scope : Snippet.Scope := { names := [], errors := Snippet.commonErrors }
    match (f.call codeFunction ([Snippet.functionValue, secrets] ++ args)).run.run scope with
    | (.ok v, scope) => return (v, scope.printed)
    | (.error e, _) => throw e

/-- What a node with a snippet does. -/
def code (props secrets : Value) : Attempt Value := do
  let snippet ← get props "code"
  let names := (← itemsOr (← get props "inputVariables")).map Value.display
  let given ← get props "variables"
  let text ← match snippet with
    | .str s => pure s
    | .bytes data =>
      if data.all fun b => b = 32 || (9 ≤ b && b ≤ 13) then pure ""
      else throw (.ofFault (.concatMismatch "str" "bytes"))
    | v =>
      if v.truthy then throw (.ofFault (.absentAttribute v.typeName "strip")) else pure ""
  match runCode names text given secrets with
  | .ok (output, printed) =>
    return Value.ofFields [("output", output), ("logs", .list (printed.map .str))]
  | .error e => throw (.ofNode codeKind ("Code execution failed: " ++ e.message) (some e.kind))

end Workflow.Node
