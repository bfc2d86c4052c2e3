/-
Running handlers.

A run answers one request: the guard accepts or turns away, the blocks of the
flow are executed one after the other, and the result of the run is sent back.
The first error ends the run and is reported in place of the result. What the
nodes do is given from outside, call by call, and every call is kept.
-/
import Workflow.Execution.Context
import Workflow.Execution.Log
import Workflow.Execution.Response
import Workflow.Execution.Signature
import Workflow.Handler.Basic

namespace Workflow

structure Call where
  node : String
  kind : String
  props : Value
  secrets : Value
  deriving Inhabited

/-- What nodes do: the outcome of each call, which may depend on the calls before it. -/
abbrev Behaviour := List Call → Call → Attempt Value

/-- What a run takes from the world around it: the time, and ids that are new. -/
structure Occasion where
  now : String
  newWorkflowId : String
  newExecutionId : String
  deriving Repr, DecidableEq, Inhabited

/-- The variables of the environment. -/
abbrev Variables := List (String × String)

/-- How far a run has come. -/
structure RunState where
  context : Context
  log : Log
  calls : List Call := []
  deriving Inhabited

/-- A part of a run. What it did before an error stays. -/
abbrev Run := ExceptT Raised (StateM RunState)

namespace Run

/-- An attempt as a part of a run. -/
def ofAttempt {α : Type} : Attempt α → Run α
  | .ok a => pure a
  | .error e => throw e

def note (message : String) : Run Unit :=
  modify fun s => { s with log := s.log.record .info message .none }

def inContext (f : Context → Context) : Run Unit := modify fun s => { s with context := f s.context }

def bindAll (names : Names) : Run Unit :=
  inContext fun c => names.foldl (fun c (name, v) => c.bind name v) c

def formula (text : String) : Run Value := do
  ofAttempt ((← get).context.evaluate (.str text))

def logs : Run Value := do return .list ((← get).log.entries.map (·.toValue))

end Run

mutual

/-- The first number in a value that has no literal. -/
def unwritable? : Value → Option String
  | .float x => if x.isNaN then some "nan" else if x.isInf then some "inf" else none
  | .list items => unwritableItem? items
  | .dict entries => unwritableField? entries
  | _ => none
termination_by structural v => v

/-- The first number in a list that has no literal. -/
def unwritableItem? : List Value → Option String
  | [] => none
  | v :: rest => (unwritable? v).or (unwritableItem? rest)
termination_by structural vs => vs

/-- The first number in a dictionary that has no literal. -/
def unwritableField? : List (Value × Value) → Option String
  | [] => none
  | (_, v) :: rest => (unwritable? v).or (unwritableField? rest)
termination_by structural entries => entries

end

/-- The configuration of a step as the text of a handler gives it: a number without a literal is
written as a name that nothing stands for. -/
def Step.config (s : Step) : Attempt Value :=
  let v := Value.ofFields s.data
  match unwritable? v with
  | some name => .error (.ofFault (.unboundName name))
  | none => .ok v

/-- The configuration of a step with its formulas, if it has any, evaluated. -/
def Step.props (s : Step) (c : Context) : Attempt Value := do
  let v ← s.config
  if hasFormula v then interpolateAll c v else return v

namespace Handler

/-- The secrets that a handler hands to nodes. -/
def secretsIn (h : Handler) (env : Variables) : Value :=
  Value.ofFields (h.secrets.map fun name =>
    (name, ((env.lookup ("SECRET_" ++ name)).map Value.str).getD .none))

/-- What a guard decides. -/
inductive Verdict where
  | accepted
  | refused (reason : Refusal)
  /-- A scheduled run that is not due. -/
  | skipped
  deriving Repr, DecidableEq, Inhabited

/-- Why a webhook turns a request away, if it does. -/
def Access.refusal? (access : Access) (env : Variables) (r : Request) : Option Refusal :=
  match access with
  | .open => none
  | .token => if r.bearerToken.isNone then some .noToken else none
  | .misconfigured => some .noSecret
  | .signature name =>
    match (env.lookup ("SECRET_" ++ name)).filter (· ≠ "") with
    | none => some .noSecret
    | some secret =>
      if verifySignature secret r.body (r.header? "x-webhook-signature") then none
      else some .badSignature

def textFields (fields : List (String × String)) : Value :=
  Value.ofFields (fields.map fun (k, v) => (k, .str v))

/-- Decides on a request and takes from it what the flow works on. -/
def Guard.judge (g : Guard) (now : String) (env : Variables) (r : Request) : Run Verdict :=
  match g with
  | .manual =>
    if r.bearerToken.isNone then return .refused .noToken
    else do
      Run.bindAll [("input", r.jsonBody), ("triggeredAt", .str now)]
      return .accepted
  | .webhook methods access =>
    if r.method ∉ methods then return .refused .method
    else
      match access.refusal? env r with
      | some reason => return .refused reason
      | none => do
        let input ← Run.ofAttempt r.readBody
        Run.bindAll [("input", input), ("headers", textFields r.headers),
          ("query", textFields r.query), ("method", .str r.method)]
        return .accepted
  | .cron schedule condition =>
    if r.method ≠ cronMethod ∨ r.path ≠ cronPath then return .refused .notFound
    else do
      Run.bindAll [("input", r.jsonBody), ("scheduledAt", .str now), ("schedule", .str schedule)]
      match condition with
      | none => return .accepted
      | some text =>
        if (← Run.formula text).truthy then return .accepted
        else
          Run.note "Cron condition is false, skipping run"
          return .skipped

def runAction (b : Behaviour) (secrets : Value) (s : Step) : Run Unit := do
  Run.inContext fun c => { c with currentStep := some s.id }
  let props ← Run.ofAttempt (s.props (← get).context)
  let call : Call := ⟨s.id, s.kind, props, secrets⟩
  let before := (← get).calls
  modify fun state => { state with calls := before ++ [call] }
  let result ← Run.ofAttempt (b before call)
  Run.inContext (·.setResult s.id result)
  Run.note ("Node " ++ s.id ++ " completed")

/-- The batches of a list, with the position of the first item of each. -/
def batches (size position : Nat) : List α → List (Nat × List α)
  | [] => []
  | item :: rest =>
    (position, item :: rest.take (size - 1)) ::
      batches size (position + max size 1) (rest.drop (size - 1))
termination_by items => items.length

/-- What a loop binds for a batch: the item itself where batches have one. -/
def batchValue (size : Nat) (batch : List Value) : Value :=
  if size = 1 then batch.headD .none else .list batch

/-- Executes the body of a loop for each batch. -/
def runBatches (s : Step) (body : Run Unit) : List (Nat × List Value) → Run Unit
  | [] => return
  | (position, batch) :: rest => do
    Run.bindAll [(s.itemVariable, batchValue s.batchSize batch),
      (s.itemVariable ++ "Index", .int position)]
    body
    runBatches s body rest

/-- The items that a loop runs over. -/
def loopItems (s : Step) : Run (List Value) := do
  let v ← Run.formula s.iterator
  if v.truthy then Run.ofAttempt v.iterate.attempt else return []

mutual

/-- Executes a block; `resume` executes what follows a join. -/
def runBlock (b : Behaviour) (secrets : Value) (resume : String → Run Unit) : Block → Run Unit
  | .trigger s => Run.note ("Executing node " ++ s.id)
  | .unsupported s => Run.note ("Executing node " ++ s.id)
  | .unreadable s _ => Run.note ("Executing node " ++ s.id)
  | .action s => do
    Run.note ("Executing node " ++ s.id)
    runAction b secrets s
  | .branch s yes no => do
    Run.note ("Executing node " ++ s.id)
    if (← Run.formula s.condition).truthy then runBlocks b secrets resume yes
    else runBlocks b secrets resume no
  | .subject s => do
    Run.note ("Executing node " ++ s.id)
    let _ ← Run.formula s.subject
  | .select s arms other => do
    Run.note ("Executing node " ++ s.id)
    let value ← Run.ofAttempt (← Run.formula s.subject).shown.attempt
    runArms b secrets resume value (runBlocks b secrets resume other) arms
  | .loop s body => do
    Run.note ("Executing node " ++ s.id)
    let items ← loopItems s
    runBatches s (runBlocks b secrets resume body) (batches s.batchSize 0 items)
  | .join s => do
    Run.note ("Executing node " ++ s.id)
    resume s.id
termination_by structural block => block

def runBlocks (b : Behaviour) (secrets : Value) (resume : String → Run Unit) : List Block → Run Unit
  | [] => return
  | block :: rest => do
    runBlock b secrets resume block
    runBlocks b secrets resume rest
termination_by structural blocks => blocks

/-- Executes the first arm for a value, or what stands for all other values. -/
def runArms (b : Behaviour) (secrets : Value) (resume : String → Run Unit) (value : String)
    (other : Run Unit) : List (String × List Block) → Run Unit
  | [] => other
  | (case, body) :: rest =>
    if value = case then runBlocks b secrets resume body
    else runArms b secrets resume value other rest
termination_by structural arms => arms

end

/-- Executes what follows a join, through at most `depth` further joins. -/
def resumeWithin (f : Flow) (b : Behaviour) (secrets : Value) : Nat → String → Run Unit
  | 0, _ => return
  | depth + 1, join =>
    match f.continuations.find? (·.join = join) with
    | some c => runBlocks b secrets (resumeWithin f b secrets depth) c.body
    | none => return

/-- Executes a flow. A continuation never leads back to itself, so that there are no more nested
continuations than continuations. -/
def Flow.run (f : Flow) (b : Behaviour) (secrets : Value) : Run Unit :=
  runBlocks b secrets (resumeWithin f b secrets f.continuations.length) f.main

/-- Answers a request, or ends in an error. -/
def attempt (h : Handler) (b : Behaviour) (now : String) (env : Variables) (r : Request) :
    Run Response := do
  match ← h.guard.judge now env r with
  | .refused reason =>
    Run.ofAttempt (Response.failure (.str reason.code) (.str reason.message) reason.status
      (← Run.logs))
  | .skipped => return Response.empty 204
  | .accepted =>
    h.flow.run b (h.secretsIn env)
    Run.ofAttempt (Response.json (Value.ofFields [("success", .bool true),
      ("result", (← get).context.result), ("logs", ← Run.logs)]) 200)

/-- The state in which a run starts. -/
def start (o : Occasion) (env : Variables) : RunState :=
  let workflowId := ((env.lookup "WORKFLOW_ID").filter (· ≠ "")).getD o.newWorkflowId
  { context := { workflowId, executionId := o.newExecutionId }
    log := { workflowId, executionId := o.newExecutionId } }

/-- The report on an error that ended a run. -/
def failureReport (e : Raised) (s : RunState) : Value :=
  Value.ofFields [("success", .bool false),
    ("error", Value.ofFields (e.report s.context.currentStep)),
    ("logs", .list (s.log.entries.map (·.toValue)))]

/-- Answers a request, and says how far the run came. -/
def fetch (h : Handler) (b : Behaviour) (o : Occasion) (env : Variables) (r : Request) :
    Response × RunState :=
  match (h.attempt b o.now env r).run.run (start o env) with
  | (.ok response, s) => (response, s)
  | (.error e, s) =>
    let s := { s with log := s.log.recordError "Workflow execution failed" e }
    match Response.json (failureReport e s) 500 with
    | .ok response => (response, s)
    | .error _ => (Response.empty 500, s)

end Handler

end Workflow
