/-
The comment at the head of a bundle, and what its text should show.
-/
import Workflow.Bundle.Environment
import Workflow.Text.Search

namespace Workflow.Bundle

/-- The comment that says what a bundle expects. -/
def header (env : Environment) (packages : List String) : String :=
  let lines :=
    ["# Workflow bundle", "#", "# Environment variables expected:"] ++
    (if env.workflowId then ["# - WORKFLOW_ID: Unique workflow identifier"] else []) ++
    (if env.secrets.isEmpty then []
      else ["# - Secrets: " ++ ", ".intercalate (env.secrets.map ("SECRET_" ++ ·))]) ++
    (if !env.workflowId && env.secrets.isEmpty then ["# - None required"] else []) ++
    (if packages.isEmpty then []
      else ["#", "# Python packages required: " ++ ", ".intercalate packages]) ++
    ["#", "# Deploy: load this file and call default.fetch(request, env, ctx)"]
  "\n".intercalate lines ++ "\n"

/-- Whether a word occurs in a text, not as a part of a longer word; `inWord` says whether the
character before the text belongs to a word. -/
def hasWord (word : List Char) (inWord : Bool) : List Char → Bool
  | [] => false
  | c :: rest =>
    (!inWord && word.isPrefixOf (c :: rest) &&
        !(((c :: rest).drop word.length).head?.map Text.isWordChar).getD false) ||
      hasWord word (Text.isWordChar c) rest

/-- What the text of a bundle leaves to be desired. -/
def warnings (code : String) (env : Environment) : List String :=
  let cs := code.toList
  (if Text.contains "default =".toList cs then []
    else ["Bundle may not be loadable (missing 'default' handler object)"]) ++
  (if Text.contains "async def fetch".toList cs then []
    else ["Bundle may not be loadable (missing 'async def fetch' handler)"]) ++
  (if (env.workflowId || !env.secrets.isEmpty) && !hasWord "env".toList false cs then
    ["Bundle uses environment variables but 'env' parameter may have been removed"]
  else [])

end Workflow.Bundle
