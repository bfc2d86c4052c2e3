/-
The kinds of nodes that come with the library: their role, their ports, their
secrets and the form of their configuration.
-/
import Workflow.Formula.Marker
import Workflow.Graph.Node

namespace Workflow

open Check

structure Kind where
  name : String
  title : String
  role : Role
  category : Category
  config : Check Value
  structural : Bool := false
  outputs : List String := []
  secrets : List String := []

/-- The control-flow constructs. -/
inductive Structure where
  | branch
  | select
  | loop
  | join
  deriving Repr, DecidableEq, Inhabited

def Structure.kind : Structure → String
  | branch => "if"
  | select => "switch"
  | loop => "for"
  | join => "merge"

def Structure.ofKind? (kind : String) : Option Structure :=
  [branch, select, loop, join].find? (·.kind = kind)

/-- The kinds of control-flow constructs. -/
def structuralKinds : List String := [Structure.branch, .select, .loop, .join].map (·.kind)

/-- How a run is started. -/
inductive TriggerKind where
  | manual
  | webhook
  | cron
  deriving Repr, DecidableEq, Inhabited

def TriggerKind.kind : TriggerKind → String
  | manual => "trigger-manual"
  | webhook => "trigger-webhook"
  | cron => "trigger-cron"

def TriggerKind.ofKind? (kind : String) : Option TriggerKind :=
  [manual, webhook, cron].find? (·.kind = kind)

namespace Kind

def branchConfig : Check Value := openRecord "IfProperties" [need "condition" (textValue 1)]

def caseConfig : Check Value := openRecord "SwitchCase"
  [need "value" (textValue 0), may "label" .none (optionalValue (textValue 0))]

def selectConfig : Check Value := openRecord "SwitchProperties"
  [need "expression" (textValue 1), may "cases" (.list []) (listValue caseConfig)]

def loopConfig : Check Value := openRecord "ForProperties"
  [need "iterator" (textValue 1), may "itemVariable" (.str "item") (textValue 0),
   may "batchSize" .none (optionalValue (integerValue 1))]

def webhookConfig : Check Value := openRecord "WebhookTriggerProperties"
  [may "path" (.str "/") (textValue 0),
   may "methods" (.list [.str "POST"])
    (listValue (oneOfValue ["GET", "POST", "PUT", "PATCH", "DELETE"])),
   may "authMode" (.str "public") (oneOfValue ["public", "frontend"]),
   may "verifySignature" (.bool false) flagValue,
   may "secretKeyRef" .none (optionalValue (textValue 0))]

def cronConfig : Check Value := openRecord "CronTriggerProperties"
  [may "schedule" (.str "* * * * *") (textValue 0),
   may "condition" .none (optionalValue (textValue 0))]

def headerConfig : Check Value :=
  openRecord "HeaderEntry" [need "key" (textValue 0), need "value" (textValue 0)]

def requestConfig : Check Value := openRecord "HttpRequestProperties"
  [need "method" (oneOfValue ["GET", "POST", "PUT", "DELETE", "PATCH"]), need "url" (textValue 1),
   may "headers" (.list []) (listValue headerConfig), may "body" .none (optionalValue (textValue 0)),
   may "timeout" (.int 30000) (integerValue 1)]

def codeConfig : Check Value := openRecord "CodeProperties"
  [need "code" (textValue 1), may "inputVariables" (.list []) (listValue (textValue 0))]

def emailConfig : Check Value := openRecord "SendEmailProperties"
  [need "toEmail" (textValue 3), need "fromEmail" (textValue 1), need "subject" (textValue 1),
   need "body" (textValue 1)]

/-- The kinds that come with the library. -/
def shipped : List Kind :=
  [{ name := TriggerKind.manual.kind, title := "Manual Trigger", role := .trigger, category := .core,
     config := openRecord "ManualTriggerProperties" [], outputs := ["output"] },
   { name := TriggerKind.webhook.kind, title := "Webhook", role := .trigger, category := .core,
     config := webhookConfig, outputs := ["output"] },
   { name := TriggerKind.cron.kind, title := "Schedule", role := .trigger, category := .core,
     config := cronConfig, outputs := ["output"] },
   { name := Structure.branch.kind, title := "If", role := .action, category := .core,
     config := branchConfig, structural := true, outputs := ["true", "false"] },
   { name := Structure.select.kind, title := "Switch", role := .action, category := .core,
     config := selectConfig, structural := true },
   { name := Structure.loop.kind, title := "For Loop", role := .action, category := .core,
     config := loopConfig, structural := true, outputs := ["body", "done"] },
   { name := Structure.join.kind, title := "Merge", role := .action, category := .core,
     config := openRecord "MergeProperties" [], structural := true, outputs := ["output"] },
   { name := "http-request", title := "HTTP Request", role := .action, category := .defaultLib,
     config := requestConfig },
   { name := "code", title := "Code", role := .action, category := .core, config := codeConfig },
   { name := "send-email", title := "Resend send email", role := .action, category := .defaultLib,
     config := emailConfig, secrets := ["apiKey"] },
   { name := "resend-send-email", title := "Resend send email", role := .action,
     category := .defaultLib, config := emailConfig, secrets := ["apiKey"] }]

def find? (name : String) : Option Kind := shipped.find? (·.name = name)

end Kind

/-- Whether a problem is in a field that is known only at run time. -/
def Problem.isDeferred (config : Value) (p : Problem) : Bool :=
  match p.path, config with
  | .field name :: _, .dict entries => ((Value.field? name entries).map isInterpolated).getD false
  | _, _ => false

/-- A problem of a configuration in short. -/
def Problem.summary (p : Problem) : String :=
  (if p.path.isEmpty then "properties" else pathText p.path) ++ ": " ++ p.defect.message

/-- The first problem of a configuration of the given kind, if it has one. Fields with formulas
are not looked at, and of an unknown kind nothing is demanded. -/
def configProblem (kind : String) (config : Value) : Option String :=
  match Kind.find? kind with
  | none => none
  | some k =>
    match k.config config with
    | .ok _ => none
    | .bad problems => ((problems.filter (!·.isDeferred config)).head?).map Problem.summary

end Workflow
