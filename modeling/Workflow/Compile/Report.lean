/-
The report on a compilation, in the form in which it is handed out.
-/
import Workflow.Bundle.Environment
import Workflow.Compile.Basic

namespace Workflow

/-- The report on a compilation and, if there was one, on the bundling of its code. -/
structure CompilationReport where
  success : Bool
  code : Option String := none
  bundle : Option String := none
  bundleSize : Option Nat := none
  error : Option String := none
  warnings : List String := []
  measures : Option Measures := none
  /-- How long the bundling took, in milliseconds. -/
  bundleTime : Option Nat := none
  environment : Option Bundle.Environment := none
  usedKinds : List String := []
  deriving Repr, DecidableEq, Inhabited

def Value.ofText? : Option String → Value
  | some s => .str s
  | Option.none => .none

def Value.ofNat? : Option Nat → Value
  | some n => .int n
  | Option.none => .none

def Value.ofTexts (items : List String) : Value := .list (items.map .str)

/-- Environment variables in the form in which they are handed out. -/
def Bundle.Environment.toValue (e : Bundle.Environment) : Value :=
  Value.ofFields [("workflowId", .bool e.workflowId), ("secrets", Value.ofTexts e.secrets)]

/-- Measures in the form in which they are handed out. -/
def Measures.fields (m : Measures) (bundleTime : Option Nat) : List (String × Value) :=
  [("nodeCount", .int m.nodeCount), ("edgeCount", .int m.edgeCount), ("hasLoops", .bool m.hasCycle),
   ("maxDepth", .int m.depth), ("bundleTime", Value.ofNat? bundleTime)]

namespace CompilationReport

def ofResult : Except CompileError Compiled → CompilationReport
  | .ok c =>
    { success := true, code := some c.code, warnings := c.warnings, measures := some c.measures,
      usedKinds := c.usedKinds }
  | .error e => { success := false, error := some e.message }

/-- The fields of a report in the form in which it is handed out. -/
def fields (r : CompilationReport) : List (String × Value) :=
  [("success", .bool r.success), ("code", Value.ofText? r.code), ("bundle", Value.ofText? r.bundle),
   ("bundleSize", Value.ofNat? r.bundleSize), ("error", Value.ofText? r.error),
   ("warnings", Value.ofTexts r.warnings),
   ("metadata", (r.measures.map fun m => Value.ofFields (m.fields r.bundleTime)).getD .none),
   ("environmentVariables", (r.environment.map (·.toValue)).getD .none)]

end CompilationReport

end Workflow
