/-
The text of a handler: a module of Python with a class whose `fetch` answers
requests.
-/
import Workflow.Handler.Basic
import Workflow.Handler.Literal
import Workflow.Handler.Writer

namespace Workflow.Handler

open Text (quoted)

/-- The functions that the text of a handler may import. -/
inductive Helper where
  | bearerToken
  | createContext
  | createEmptyResponse
  | createErrorResponse
  | createJsonResponse
  | evaluateExpression
  | handleError
  | interpolateConfig
  | newId
  | nowIso
  | parseJsonBody
  | readBody
  | verifySignature
  deriving Repr, DecidableEq, Inhabited

def Helper.name : Helper → String
  | bearerToken => "bearer_token"
  | createContext => "create_context"
  | createEmptyResponse => "create_empty_response"
  | createErrorResponse => "create_error_response"
  | createJsonResponse => "create_json_response"
  | evaluateExpression => "evaluate_expression"
  | handleError => "handle_error"
  | interpolateConfig => "interpolate_config"
  | newId => "new_id"
  | nowIso => "now_iso"
  | parseJsonBody => "parse_json_body"
  | readBody => "read_body"
  | verifySignature => "verify_signature"

/-- All functions, in the order of their names. -/
def Helper.sorted : List Helper :=
  [bearerToken, createContext, createEmptyResponse, createErrorResponse, createJsonResponse,
   evaluateExpression, handleError, interpolateConfig, newId, nowIso, parseJsonBody, readBody,
   verifySignature]

/-- The functions that a guard calls. -/
def Guard.helpers : Guard → List Helper
  | .manual => [.createErrorResponse, .bearerToken, .parseJsonBody, .nowIso]
  | .webhook _ access =>
    .createErrorResponse :: match access with
      | .open => [.readBody]
      | .token => [.bearerToken, .readBody]
      | .signature _ => [.verifySignature, .readBody]
      | .misconfigured => []
  | .cron _ condition =>
    [.createErrorResponse, .parseJsonBody, .nowIso] ++
      if condition.isSome then [.evaluateExpression, .createEmptyResponse] else []

/-- Whether the configuration of an action holds formulas. -/
def isDynamic (s : Step) : Bool := hasFormula (Value.ofFields s.data)

/-- The functions that a block calls. -/
def Block.helpers : Block → List Helper
  | .branch .. | .subject _ | .select .. | .loop .. => [.evaluateExpression]
  | .action s => if isDynamic s then [.interpolateConfig] else []
  | _ => []

/-- The functions that the text of a handler calls, in the order of their names. -/
def helpers (h : Handler) : List Helper :=
  let used := [.createContext, .createJsonResponse, .handleError, .newId] ++ h.guard.helpers ++
    h.flow.written.flatMap Block.helpers
  Helper.sorted.filter (· ∈ used)

def writeRefusal (r : Refusal) (w : Writer) : Writer :=
  w.write ("return create_error_response(" ++ quoted r.code ++ ", " ++ quoted r.message ++ ", " ++
    Number.natText r.status ++ ", logger.get_logs())")

def writeTokenDemand (w : Writer) : Writer :=
  (w.write "if bearer_token(request) is None:").indented (writeRefusal .noToken)

def writeSignatureDemand (secret : String) (w : Writer) : Writer :=
  let w := w.write ("signing_secret = env.get(" ++ quoted ("SECRET_" ++ secret) ++ ")")
  let w := (w.write "if not signing_secret:").indented (writeRefusal .noSecret)
  (w.write ("if not verify_signature(signing_secret, request.body, " ++
      "request.header(\"x-webhook-signature\")):")).indented
    (writeRefusal .badSignature)

/-- Writes what a webhook takes from a request. -/
def writeWebhookInput (w : Writer) : Writer :=
  w.writeAll
    ["context.variables[\"input\"] = read_body(request)",
     "context.variables[\"headers\"] = dict(request.headers)",
     "context.variables[\"query\"] = dict(request.query)",
     "context.variables[\"method\"] = request.method"]

/-- Writes what a webhook demands besides the method, and what it takes from a request. -/
def writeAccess (access : Access) (w : Writer) : Writer :=
  match access with
  | .open => writeWebhookInput w
  | .token => writeWebhookInput (writeTokenDemand w)
  | .signature secret => writeWebhookInput (writeSignatureDemand secret w)
  | .misconfigured => writeRefusal .noSecret w

def writeGuard (guard : Guard) (w : Writer) : Writer :=
  match guard with
  | .manual =>
    (writeTokenDemand w).writeAll
      ["context.variables[\"input\"] = parse_json_body(request)",
       "context.variables[\"triggeredAt\"] = now_iso()"]
  | .webhook methods access =>
    let list := (Value.list (methods.map .str)).literal
    writeAccess access
      ((w.write ("if request.method not in " ++ list ++ ":")).indented (writeRefusal .method))
  | .cron schedule condition =>
    let w := (w.write ("if request.method != " ++ quoted cronMethod ++ " or request.path != " ++
      quoted cronPath ++ ":")).indented (writeRefusal .notFound)
    let w := w.writeAll
      ["context.variables[\"input\"] = parse_json_body(request)",
       "context.variables[\"scheduledAt\"] = now_iso()",
       "context.variables[\"schedule\"] = " ++ quoted schedule]
    match condition with
    | some text =>
      (w.write ("if not evaluate_expression(" ++ quoted text ++ ", context):")).indented fun w =>
        w.writeAll
          ["logger.info(\"Cron condition is false, skipping run\")",
           "return create_empty_response(204)"]
    | none => w

/-- Writes an assignment of a literal, whose further lines are indented. -/
def writeLiteral (before : String) (lines : List String) (after : String) (w : Writer) : Writer :=
  match lines with
  | [] => w.write (before ++ after)
  | [line] => w.write (before ++ line ++ after)
  | line :: rest =>
    (w.write (before ++ line)).indented fun w =>
      (w.writeAll rest.dropLast).write (rest.getLastD "" ++ after)

def writeAction (h : Handler) (s : Step) (w : Writer) : Writer :=
  let name := h.variableOf s.id
  let props := "props_" ++ name
  let result := "result_" ++ name
  let literal := literalLines s.data
  let w := w.write ("context.current_step = " ++ quoted s.id)
  let w :=
    if isDynamic s then writeLiteral (props ++ " = interpolate_config(") literal ", context)" w
    else writeLiteral (props ++ " = ") literal "" w
  w.writeAll
    [result ++ " = await " ++ h.aliasOf s.kind ++ "(" ++ props ++ ", secrets)",
     "context.set_result(" ++ quoted s.id ++ ", " ++ result ++ ")",
     "logger.info(" ++ quoted ("Node " ++ s.id ++ " completed") ++ ")"]

/-- Writes what precedes every node. -/
def writeNodeHead (s : Step) (w : Writer) : Writer :=
  (w.blank.comment ("Node: " ++ s.id ++ " (" ++ s.kind ++ ")")).write
    ("logger.info(" ++ quoted ("Executing node " ++ s.id) ++ ")")

def writeFormula (target formula : String) (w : Writer) : Writer :=
  w.write (target ++ " = evaluate_expression(" ++ quoted formula ++ ", context)")

def conditionVariable (h : Handler) (s : Step) : String := "condition_" ++ h.variableOf s.id

def subjectVariable (h : Handler) (s : Step) : String := "switch_value_" ++ h.variableOf s.id

def continuationName (h : Handler) (join : String) : String := "continue_" ++ h.variableOf join

/-- Writes the head of a loop and the variables that it binds. -/
def writeLoopHead (h : Handler) (s : Step) (w : Writer) : Writer :=
  let name := h.variableOf s.id
  let items := "items_" ++ name
  let index := "index_" ++ name
  let batch := Number.natText s.batchSize
  let w := w.writeAll
    [items ++ " = list(evaluate_expression(" ++ quoted s.iterator ++ ", context) or [])",
     "for " ++ index ++ " in range(0, len(" ++ items ++ "), " ++ batch ++ "):"]
  let taken :=
    if s.batchSize = 1 then items ++ "[" ++ index ++ "]"
    else items ++ "[" ++ index ++ ":" ++ index ++ " + " ++ batch ++ "]"
  w.push.writeAll
    ["context.variables[" ++ quoted s.itemVariable ++ "] = " ++ taken,
     "context.variables[" ++ quoted (s.itemVariable ++ "Index") ++ "] = " ++ index]

/-- Writes an arm on the next level; an empty one does nothing. -/
def writeArm (body : Writer → Writer) (w : Writer) : Writer :=
  w.indented fun w =>
    let written := body w
    if written.statements = w.statements then written.write "pass" else written

mutual

def writeBlock (h : Handler) : Block → Writer → Writer
  | .trigger s, w => (writeNodeHead s w).comment "Trigger nodes only start a workflow"
  | .unsupported s, w =>
    (writeNodeHead s w).comment ("Unsupported structural node type: " ++ s.kind)
  | .action s, w => writeAction h s (writeNodeHead s w)
  | .branch s yes no, w =>
    let target := conditionVariable h s
    let w := writeFormula target s.condition (writeNodeHead s w)
    let w := writeArm (writeBlocks h yes) (w.write ("if " ++ target ++ ":"))
    writeArm (writeBlocks h no) (w.write "else:")
  | .subject s, w => writeFormula (subjectVariable h s) s.subject (writeNodeHead s w)
  | .select s arms other, w =>
    let target := subjectVariable h s
    let w := writeFormula target s.subject (writeNodeHead s w)
    let w := writeArms h target "if" arms w
    writeArm (writeBlocks h other) (w.write "else:")
  | .loop s body, w => (writeBlocks h body (writeLoopHead h s (writeNodeHead s w))).pop
  | .join s, w => (writeNodeHead s w).write ("await " ++ continuationName h s.id ++ "()")
  | .unreadable s _, w => writeNodeHead s w
termination_by structural b => b

def writeBlocks (h : Handler) : List Block → Writer → Writer
  | [], w => w
  | b :: rest, w => writeBlocks h rest (writeBlock h b w)
termination_by structural bs => bs

/-- Writes the arms of a selection, the first with the given keyword. -/
def writeArms (h : Handler) (target keyword : String) :
    List (String × List Block) → Writer → Writer
  | [], w => w
  | (value, body) :: rest, w =>
    let w := w.write (keyword ++ " str(" ++ target ++ ") == " ++ quoted value ++ ":")
    writeArms h target "elif" rest (writeArm (writeBlocks h body) w)
termination_by structural arms => arms

end

/-- The text of a continuation's body, inside `fetch`. -/
def continuationBody (h : Handler) (body : List Block) : Writer :=
  let w := writeBlocks h body { level := 4 }
  if w.statements = 0 then w.write "pass" else w

/-- The text of the guard and the flow, inside `fetch`. -/
def mainBody (h : Handler) : Writer :=
  let w : Writer := { level := 3 }
  let w := writeGuard h.guard
    (w.comment ("Trigger: " ++ h.trigger.id ++ " (" ++ h.trigger.kind ++ ")"))
  match h.flow.main with
  | [] => w
  | blocks => writeBlocks h blocks (w.blank.comment "Workflow execution flow")

def writeImports (h : Handler) (w : Writer) : Writer :=
  let w := w.write ("from " ++ runtimeModule ++ " import (")
  let w := w.indented (·.writeAll (h.helpers.map (·.name ++ ",")))
  (w.write ")").writeAll
    (("from " ++ loggerModule ++ " import Logger") ::
      h.aliases.map fun (kind, name) =>
        "from " ++ nodeModule kind ++ " import execute as " ++ name)

def writeSecrets (secrets : List String) (w : Writer) : Writer :=
  if secrets.isEmpty then w.write "secrets = \x7b\x7d"
  else
    ((w.write "secrets = \x7b").indented (·.writeAll (secrets.map fun name =>
      quoted name ++ ": env.get(" ++ quoted ("SECRET_" ++ name) ++ "),"))).write "\x7d"

def writeContinuations (h : Handler) (w : Writer) : Writer :=
  h.flow.continuations.foldl (fun w c =>
    ((w.write ("async def " ++ continuationName h c.join ++ "():")).extend
      (continuationBody h c.body)).blank) w

def writeFailure (w : Writer) : Writer :=
  w.writeAll
    ["logger.error(\"Workflow execution failed\", error)",
     "return create_json_response(",
     "    \x7b",
     "        \"success\": False,",
     "        \"error\": handle_error(error, context.current_step),",
     "        \"logs\": logger.get_logs(),",
     "    \x7d,",
     "    500,",
     ")"]

def writeFetch (h : Handler) (w : Writer) : Writer :=
  let w := w.writeAll
    ["workflow_id = env.get(\"WORKFLOW_ID\") or new_id()",
     "execution_id = new_id()",
     "logger = Logger(workflow_id, execution_id)",
     "context = create_context(workflow_id, execution_id)"]
  let w := ((writeSecrets h.secrets w).blank.write "try:").indented fun w =>
    ((writeContinuations h w).extend (mainBody h)).blank.writeAll
      ["return create_json_response(",
       "    \x7b\"success\": True, \"result\": context.result(), \"logs\": logger.get_logs()\x7d, 200",
       ")"]
  (w.write "except Exception as error:").indented writeFailure

def document (h : Handler) : Writer :=
  let w : Writer := {}
  let w := (w.write
    "\"\"\"Workflow request handler generated by flowsmith. Do not edit by hand.\"\"\"").blank
  let w := (writeImports h w).blank.write ""
  let w := (w.write "class WorkflowHandler:").indented fun w =>
    (((w.write "\"\"\"Handles requests arriving through the workflow trigger.\"\"\"").blank).write
      "async def fetch(self, request, env, ctx):").indented (writeFetch h)
  (w.blank.write "").write "default = WorkflowHandler()"

def code (h : Handler) : String := h.document.text ++ "\n"

end Workflow.Handler
