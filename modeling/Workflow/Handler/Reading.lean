/-
How the generator reads the configuration of triggers and control-flow
constructs. A field that counts as false is as if it were not there.
-/
import Workflow.Graph.Plan
import Workflow.Text.Case

namespace Workflow

namespace Step

/-- The value of a field, if it counts as true. -/
def field? (s : Step) (name : String) : Option Value := (s.data.lookup name).filter (·.truthy)

def fieldText (s : Step) (name default : String) : String :=
  ((s.field? name).map Value.display).getD default

def condition (s : Step) : String := s.fieldText "condition" "False"

/-- What a selection looks at. -/
def subject (s : Step) : String := s.fieldText "expression" "''"

/-- The text of a case: its value if it is a record. -/
def caseText : Value → String
  | .dict entries => ((Value.field? "value" entries).getD .none).display
  | v => v.display

def cases (s : Step) : Outcome (List String) :=
  match s.field? "cases" with
  | some v => do return (← v.iterate).map caseText
  | none => pure []

def iterator (s : Step) : String := s.fieldText "iterator" "[]"

def itemVariable (s : Step) : String := s.fieldText "itemVariable" "item"

/-- How many items a loop takes at once. -/
def batchSize (s : Step) : Nat :=
  match s.data.lookup "batchSize" with
  | some (.int n) => if n < 1 then 1 else n.toNat
  | _ => 1

/-- The methods that a webhook allows, sorted and without repetitions. -/
def methods (s : Step) : Outcome (List String) := do
  let given ← match s.field? "methods" with
    | some v => v.iterate
    | none => pure [.str "POST"]
  let names := given.map fun v => Text.toUpper v.display
  return (names.eraseDups).mergeSort fun a b => a ≤ b

def wantsToken (s : Step) : Bool :=
  match s.field? "authMode" with
  | some (.str mode) => mode = "frontend"
  | _ => false

def wantsSignature (s : Step) : Bool := (s.field? "verifySignature").isSome

/-- The secret that a webhook's signatures are made with. -/
def signingSecret? (s : Step) : Option String := (s.field? "secretKeyRef").map Value.display

def schedule (s : Step) : String := s.fieldText "schedule" "* * * * *"

/-- The condition of a scheduled run, unless it is blank. -/
def runCondition? (s : Step) : Option String :=
  match s.data.lookup "condition" with
  | some (.str text) => if Text.allBlank text then none else some text
  | _ => none

end Step

end Workflow
