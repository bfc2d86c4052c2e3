/-
Names for generated code: identifiers made from the ids and kinds of nodes,
and the modules that generated code imports.
-/
import Workflow.Number.Shortest

namespace Workflow.Handler

/-- Letters and digits that an identifier is made of. -/
def isPlain (c : Char) : Bool := c.isDigit || c.isLower || c.isUpper

/-- The runs of plain characters of a text, in lower case; `current` is the run being read,
reversed. -/
def plainRuns (current : List Char) : List Char → List (List Char)
  | [] => if current.isEmpty then [] else [current.reverse]
  | c :: rest =>
    if isPlain c then plainRuns (c.toLower :: current) rest
    else if current.isEmpty then plainRuns [] rest
    else current.reverse :: plainRuns [] rest

/-- The identifier of a name: its runs of plain characters, joined by underscores. One that would
start with a digit gets a letter, and an empty one is `node`. -/
def identifier (name : String) : String :=
  let cs := ['_'].intercalate (plainRuns [] name.toList)
  match cs with
  | [] => "node"
  | c :: _ => String.ofList (if c.isDigit then 'n' :: cs else cs)

/-- The module that gives contexts, requests and responses. -/
def runtimeModule : String := "workflow_runtime"

/-- The module of the log. -/
def loggerModule : String := "workflow_runtime.logger"

/-- The module that nodes are based on. -/
def nodeBaseModule : String := "node_base"

/-- The module that executes the nodes of a kind. -/
def nodeModule (kind : String) : String := "nodes_" ++ identifier kind ++ ".runtime"

/-- The first of the candidates `base`, `base ++ separator ++ 1`, `base ++ separator ++ 2`, … that
is not taken. Among one more candidate than there are taken names one is free. -/
def freshName (base separator : String) (taken : List String) : String :=
  let candidates := base :: (List.range taken.length).map fun n =>
    base ++ separator ++ Number.natText (n + 1)
  (candidates.find? (· ∉ taken)).getD base

end Workflow.Handler
