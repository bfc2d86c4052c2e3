/-
Settings, taken from environment variables.
-/
import Workflow.Execution.Raised
import Workflow.Number.Read
import Workflow.Text.Case

namespace Workflow

structure Settings where
  /-- The directory for transient files, if one is set. -/
  buildDir : Option String := none
  timeout : Float := 30.0
  minify : Bool := true
  debug : Bool := false
  logLevel : String := "INFO"
  deriving Inhabited

/-- Whether a variable's text turns a flag on. -/
def flagOf (text : String) : Bool := Text.toLower text ∈ ["true", "1", "yes"]

def Settings.load (env : List (String × String)) : Attempt Settings := do
  let timeout := (env.lookup "FLOWSMITH_BUNDLE_TIMEOUT").getD "30"
  match Number.readFloat? timeout with
  | none => throw (.ofFault (.floatLiteral (Text.quoted timeout)))
  | some timeout =>
    return {
      buildDir := env.lookup "FLOWSMITH_BUILD_DIR"
      timeout
      minify := ((env.lookup "FLOWSMITH_MINIFY").map flagOf).getD true
      debug := ((env.lookup "FLOWSMITH_DEBUG").map flagOf).getD false
      logLevel := ((env.lookup "FLOWSMITH_LOG_LEVEL").map Text.toUpper).getD "INFO" }

end Workflow
