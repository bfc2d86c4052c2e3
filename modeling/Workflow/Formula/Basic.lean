/-
Evaluating the text of a formula.
-/
import Workflow.Formula.Evaluate
import Workflow.Source.Expression
import Workflow.Text.Blank

namespace Workflow.Formula

/-- The fault of a text that is no formula. -/
def sourceFault : Source.SourceError → Fault
  | .malformed => .sourceError
  | .indentation => .indentationError
  | .tabs => .tabError
  | .nullCharacter => .nullInSource

/-- Reads a formula. Blanks at its ends do not count. -/
def read (text : String) : Outcome Source.Expr :=
  match Source.readExpression (Text.trim text) with
  | .ok e => pure e
  | .error e => throw (sourceFault e)

def evaluateText (names : Names) (text : String) : Outcome Value := do
  eval names (← read text)

/-- The value of a formula; a value that is no text stands for itself. -/
def evaluate (names : Names) : Value → Outcome Value
  | .str text => evaluateText names text
  | v => pure v

/-- What is said when a formula cannot be evaluated. -/
def failureMessage (f : Fault) : String := "Expression evaluation failed: " ++ f.message

end Workflow.Formula
