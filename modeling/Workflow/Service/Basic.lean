/-
The service: its endpoints, and the replies to requests.
-/
import Workflow.Compile.Deploy
import Workflow.Service.Submission
import Workflow.Text.Case

namespace Workflow.Service

def version : String := "0.1.0"

inductive Endpoint where
  | root
  | health
  | nodes
  | compile
  | validate
  | bundle
  deriving Repr, DecidableEq, Inhabited

namespace Endpoint

def path : Endpoint → String
  | root => "/"
  | health => "/api/v1/health"
  | nodes => "/api/v1/nodes"
  | compile => "/api/v1/compile"
  | validate => "/api/v1/validate"
  | bundle => "/api/v1/bundle"

def method : Endpoint → String
  | root | health | nodes => "GET"
  | compile | validate | bundle => "POST"

def all : List Endpoint := [root, health, nodes, compile, validate, bundle]

end Endpoint

/-- A path without slashes at its end. -/
def barePath (path : String) : String :=
  String.ofList (Text.dropTrailing (· = '/') path.toList)

/-- The endpoint of a path. One that is not known with slashes at its end is known without. -/
def endpointAt? (path : String) : Option Endpoint :=
  match Endpoint.all.find? (·.path = path) with
  | some e => some e
  | none => Endpoint.all.find? (·.path = barePath path)

/-- The path of a request's target, without its query. -/
def targetPath (target : String) : String :=
  String.ofList (target.toList.takeWhile fun c => c ≠ '?' && c ≠ '#')

def route (method target : String) : Except Reply Endpoint :=
  match endpointAt? (targetPath target) with
  | none => .error (.refusal 404 (.str "Not Found"))
  | some e =>
    if Text.toUpper method = e.method then .ok e
    else .error (.refusal 405 (.str "Method Not Allowed"))

/-- What the service knows of a kind of nodes. -/
def kindValue (k : Kind) : Value :=
  Value.ofFields [("name", .str k.name), ("title", .str k.title), ("node_type", .str k.role.name),
    ("category", .str k.category.name), ("structural", .bool k.structural),
    ("outputs", Value.ofTexts k.outputs), ("secrets", Value.ofTexts k.secrets),
    ("bundled", .bool (Bundle.Registry.shipped.hasNode k.name))]

/-- The report on a compilation, unless the configuration cannot be worked with. -/
def reportOf : Except CompileError CompilationReport → Except Fault CompilationReport
  | .ok r => .ok r
  | .error (.fault f) => .error f
  | .error e => .ok (CompilationReport.ofResult (.error e))

/-- The reply that hands out a report, or says why there is no code. -/
def reportReply (r : CompilationReport) (more : List (String × Value)) : Reply :=
  if r.success then ⟨200, Value.ofFields (r.fields ++ more)⟩
  else .refusal 400 (Value.ofText? r.error)

def compiledReport (s : Submission) : Except Fault CompilationReport :=
  reportOf ((compile (.list s.nodes) (.list s.edges)).map fun c => CompilationReport.ofResult (.ok c))

/-- The reply to a submission to be validated. -/
def validateReply (r : CompilationReport) : Reply :=
  ⟨200, Value.ofFields [("valid", .bool r.success), ("error", Value.ofText? r.error),
    ("warnings", Value.ofTexts r.warnings),
    ("metadata", (r.measures.map fun m => Value.ofFields (m.fields none)).getD .none)]⟩

/-- The description of a bundle that is named. -/
def buildMetadata (order : Order) (now : String) (r : CompilationReport) : List (String × Value) :=
  match givenId? order.workflowId, givenId? order.workflowName with
  | some id, some name =>
    match r.buildFields id name now with
    | some fields => [("buildMetadata", Value.ofFields fields)]
    | none => []
  | _, _ => []

def bundleReply (o : Bundle.Options) (now : String) (order : Order) : Except Fault Reply := do
  let o := { o with minify := order.minify.getD o.minify }
  let r ← reportOf (deploy o order.workflowId (.list order.submission.nodes)
    (.list order.submission.edges))
  return reportReply r (buildMetadata order now r)

/-- Replies to what a body holds, or says what is wrong with it. -/
def withRecord {α : Type} (fields : Entries → Checked α) (body : List UInt8)
    (f : α → Except Fault Reply) : Except Fault Reply :=
  match readRecord fields body with
  | .error reply => .ok reply
  | .ok a => f a

/-- The reply of an endpoint. -/
def Endpoint.reply (o : Bundle.Options) (now : String) (body : List UInt8) :
    Endpoint → Except Fault Reply
  | root =>
    .ok ⟨200, Value.ofFields [("name", .str "Flowsmith Workflow Compiler"), ("version", .str version),
      ("docs", .str "/docs"), ("health", .str Endpoint.health.path)]⟩
  | health =>
    .ok ⟨200, Value.ofFields [("status", .str "healthy"), ("version", .str version),
      ("timestamp", .str now)]⟩
  | nodes => .ok ⟨200, .list (Kind.shipped.map kindValue)⟩
  | compile => withRecord submissionFields body fun s => do return reportReply (← compiledReport s) []
  | validate => withRecord submissionFields body fun s => do return validateReply (← compiledReport s)
  | bundle => withRecord orderFields body (bundleReply o now)

/-- Replies to a request; a configuration that cannot be worked with ends it in a fault. -/
def reply (o : Bundle.Options) (now method target : String) (body : List UInt8) : Except Fault Reply :=
  match route method target with
  | .error r => .ok r
  | .ok e => e.reply o now body

end Workflow.Service
