/-
The environment variables that a handler reads: the id of its workflow, and
secrets. They are found in its text.
-/
import Workflow.Text.Blank
import Workflow.Text.Letters

namespace Workflow.Bundle

/-- The variables that a handler reads. -/
structure Environment where
  workflowId : Bool := false
  secrets : List String := []
  deriving Repr, DecidableEq, Inhabited

def isQuote (c : Char) : Bool := c = '"' || c = '\''

def isSecretChar (c : Char) : Bool := c.isAlphanum || c = '_'

def dropStart? (start : List Char) (cs : List Char) : Option (List Char) :=
  if start.isPrefixOf cs then some (cs.drop start.length) else none

def dropQuote? : List Char → Option (List Char)
  | c :: rest => if isQuote c then some rest else none
  | [] => none

/-- The name of a secret that a text begins with: it is quoted and marked as one. -/
def secretAt? (cs : List Char) : Option String := do
  let cs ← dropQuote? cs
  let cs ← dropStart? "SECRET_".toList cs
  let name := cs.takeWhile isSecretChar
  if name.isEmpty then none
  let _ ← dropQuote? (cs.drop name.length)
  return String.ofList name

/-- The names of secrets in a text, from left to right. The first `skip` characters belong to a
name already found. -/
def secretsIn (skip : Nat) : List Char → List String
  | [] => []
  | c :: rest =>
    match skip with
    | skip + 1 => secretsIn skip rest
    | 0 =>
      match secretAt? (c :: rest) with
      | some name => name :: secretsIn (name.length + 8) rest
      | none => secretsIn 0 rest

/-- The members of a list, each at its first place. -/
def firsts (names : List String) : List String :=
  names.foldl (fun known n => if n ∈ known then known else known ++ [n]) []

/-- Whether a text begins by reading the id of the workflow. -/
def readsWorkflowId (cs : List Char) : Bool :=
  let quoted (cs : List Char) : Bool :=
    ((dropQuote? (cs.dropWhile Text.isBlank)).bind (dropStart? "WORKFLOW_ID".toList)).bind dropQuote?
      |>.isSome
  match dropStart? "env".toList cs with
  | none => false
  | some rest =>
    ((dropStart? ".get(".toList rest).map quoted).getD false ||
      ((dropStart? "[".toList rest).map quoted).getD false

/-- Whether something holds of a text or of what is left of it after some characters. -/
def somewhere (p : List Char → Bool) : List Char → Bool
  | [] => p []
  | c :: rest => p (c :: rest) || somewhere p rest

/-- The variables that a text reads. -/
def environmentOf (code : String) : Environment :=
  { workflowId := somewhere readsWorkflowId code.toList,
    secrets := firsts (secretsIn 0 code.toList) }

end Workflow.Bundle
