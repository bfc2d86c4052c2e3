/-
Compiling a workflow and bundling its handler.

A handler that cannot be bundled is still handed out, with a warning.
-/
import Workflow.Bundle.Basic
import Workflow.Compile.Report

namespace Workflow

/-- The report on a compilation with the result of bundling its handler. -/
def CompilationReport.withBundle (r : CompilationReport) :
    Except Bundle.BundleError Bundle.Bundled → CompilationReport
  | .error e => { r with warnings := r.warnings ++ ["Bundling failed: " ++ e.message] }
  | .ok b =>
    { r with
      bundle := some b.code
      bundleSize := some b.size
      warnings := r.warnings ++ b.warnings
      bundleTime := some 0
      environment := some b.environment }

/-- The id of a workflow, unless it is missing or empty. -/
def givenId? (id : Option String) : Option String := id.filter (· ≠ "")

def deploy (o : Bundle.Options) (workflowId : Option String) (nodes edges : Value) :
    Except CompileError CompilationReport := do
  let compiled ← compile nodes edges
  return (CompilationReport.ofResult (.ok compiled)).withBundle
    (Bundle.bundle o (givenId? workflowId) compiled.code compiled.usedKinds)

/-- What is said of a report without a bundle that is asked for build metadata. -/
def noBundleMessage : String := "Build metadata requires a successfully bundled compilation"

/-- The description of a bundled workflow for those who deploy it. -/
def CompilationReport.buildFields (r : CompilationReport) (workflowId name time : String) :
    Option (List (String × Value)) := do
  let _ ← r.bundle
  let m ← r.measures
  if !r.success then none
  return [("workflowId", .str workflowId), ("workflowName", .str name), ("buildTimestamp", .str time),
    ("bundleSize", .int (r.bundleSize.getD 0))] ++ m.fields r.bundleTime ++
    [("environmentVariables", (r.environment.getD {}).toValue), ("warnings", Value.ofTexts r.warnings)]

end Workflow
