/-
Bundles: scripts that can be deployed as they are.

A bundle is built from the code of a handler under a time limit. The code lies
in a file while it is built, and a directory or name that cannot hold the file
fails the bundle.
-/
import Workflow.Bundle.Build
import Workflow.Bundle.Environment
import Workflow.Bundle.Header
import Workflow.Graph.Kind
import Workflow.Number.Fixed
import Workflow.Text.Utf8

namespace Workflow.Bundle

structure Options where
  registry : Registry
  /-- Whether descriptions are left out. -/
  minify : Bool := true
  /-- The seconds that a build may take. -/
  timeout : Float := 30.0
  /-- A directory that does not exist, if the file should lie in one. -/
  directory : Option String := none
  /-- The mark that makes the name of the file unique. -/
  mark : String
  deriving Inhabited

inductive BundleError where
  | emptyCode
  | noWorkflowId
  | missingRuntimes (kinds : List String)
  | noDirectory (path : String)
  | nameTooLong (path : String)
  | timedOut (seconds : String)
  | build (e : BuildError)
  deriving Repr, DecidableEq, Inhabited

namespace BundleError

def message : BundleError → String
  | emptyCode => "Generated code is empty"
  | noWorkflowId => "Workflow ID is required"
  | missingRuntimes kinds => "Missing node runtimes: " ++ ", ".intercalate kinds
  | noDirectory path =>
    "Bundling failed: [Errno 2] No such file or directory: " ++ Text.quoted path
  | nameTooLong path => "Bundling failed: [Errno 36] File name too long: " ++ Text.quoted path
  | timedOut seconds => "Bundling timed out after " ++ seconds ++ "s"
  | build e => if e.code?.isSome then e.message else "Bundling failed: " ++ e.message

def code : BundleError → String
  | emptyCode => "EMPTY_INPUT"
  | noWorkflowId => "MISSING_WORKFLOW_ID"
  | missingRuntimes _ => "MISSING_RUNTIMES"
  | noDirectory _ => "BUILD_FAILED"
  | nameTooLong _ => "BUILD_FAILED"
  | timedOut _ => "BUNDLE_TIMEOUT"
  | build e => e.code?.getD "BUILD_FAILED"

end BundleError

structure Bundled where
  code : String
  warnings : List String
  environment : Environment
  deriving Repr, DecidableEq, Inhabited

def Bundled.size (b : Bundled) : Nat := b.code.utf8ByteSize

/-- Whether a kind needs a runtime: triggers and control flow do not. -/
def needsRuntime (kind : String) : Bool :=
  !kind.startsWith "trigger-" && !structuralKinds.contains kind

/-- The kinds in use that need a runtime and have none, each once. -/
def missingRuntimes (r : Registry) (usedKinds : List String) : List String :=
  r.missingNodes ((firsts usedKinds).filter needsRuntime)

/-- The id of a workflow as a part of a file name. -/
def safeName (id : String) : String :=
  id.map fun c => if c.isAlphanum || c = '_' || c = '-' then c else '_'

/-- The file of an entry; a workflow without an id is named by the mark. -/
def entryFile (workflowId : Option String) (mark : String) : String :=
  "workflow-" ++ (workflowId.map safeName).getD mark ++ "-" ++ mark ++ ".py"

/-- The length of a mark in the name of a file. -/
def markLength : Nat := 36

/-- Whether the name of an entry's file is longer than a file system takes. -/
def isNameTooLong (workflowId : Option String) : Bool :=
  "workflow-".length + ((workflowId.map String.length).getD markLength) + 1 + markLength + 3 > 255

/-- Seconds with up to six digits. -/
def secondsText (x : Float) : String :=
  match Number.parts x with
  | .nan => "nan"
  | .infinite negative => if negative then "-inf" else "inf"
  | .finite negative m e => (if negative then "-" else "") ++ Number.generalText m e 6 false

/-- Finds what keeps a handler from being bundled before it is built. -/
def preflight (r : Registry) (workflowId : Option String) (code : String) (usedKinds : List String) :
    Except BundleError Unit :=
  if Text.allBlank code then .error .emptyCode
  else if workflowId = some "" then .error .noWorkflowId
  else
    match missingRuntimes r usedKinds with
    | [] => .ok ()
    | missing => .error (.missingRuntimes missing)

/-- Puts the code of an entry into its file. -/
def Options.keep (o : Options) (workflowId : Option String) : Except BundleError String :=
  let file := entryFile workflowId o.mark
  match o.directory with
  | some directory => .error (.noDirectory (directory ++ "/" ++ file))
  | none => if isNameTooLong workflowId then .error (.nameTooLong file) else .ok file

def bundle (o : Options) (workflowId : Option String) (code : String) (usedKinds : List String) :
    Except BundleError Bundled := do
  preflight o.registry workflowId code usedKinds
  let file ← o.keep workflowId
  if o.timeout ≤ 0 then throw (.timedOut (secondsText o.timeout))
  let linked ← (build o.registry o.minify file code).mapError .build
  let environment := environmentOf code
  return {
    code := header environment linked.packages ++ "\n" ++ linked.text
    warnings := warnings linked.text environment
    environment }

end Workflow.Bundle
