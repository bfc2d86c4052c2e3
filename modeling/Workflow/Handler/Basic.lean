/-
Handlers: the program that answers the requests of a workflow, as a guard and
a flow, with the names that its text uses.
-/
import Workflow.Formula.Marker
import Workflow.Handler.Flow
import Workflow.Handler.Guard
import Workflow.Handler.Identifier

namespace Workflow

namespace Handler

/-- The names of a list of ids, distinct also where their identifiers agree. -/
def variableNames (ids : List String) : List (String × String) :=
  ids.foldl (fun known id =>
    known ++ [(id, freshName (identifier id) "_" (known.map (·.2)))]) []

/-- The names under which the modules of kinds are imported. -/
def aliasNames (kinds : List String) : List (String × String) :=
  kinds.foldl (fun known kind =>
    known ++ [(kind, freshName (identifier kind ++ "_runtime") "" (known.map (·.2)))]) []

/-- The kinds of the actions among blocks, each at its first place. -/
def usedKinds (written : List Block) : List String :=
  (written.filterMap fun
    | .action s => some s.kind
    | _ => none).eraseDups

end Handler

structure Handler where
  trigger : Step
  guard : Handler.Guard
  flow : Handler.Flow
  /-- The name of each node in generated code. -/
  nodeNames : List (String × String)
  /-- The name under which the module of each kind is imported. -/
  aliases : List (String × String)
  /-- The secrets that are handed to actions, sorted. -/
  secrets : List String
  deriving Inhabited

namespace Handler

def ofPlan (p : Plan) : Except GenerateError Handler := do
  match p.step? p.entry with
  | none => throw .noEntry
  | some trigger =>
    match TriggerKind.ofKind? trigger.kind with
    | none => throw (.unsupportedTrigger trigger.kind)
    | some kind =>
      let guard ← (Guard.ofStep kind trigger).mapError .fault
      let flow ← flowOf p
      let kinds := usedKinds flow.written
      let secrets := (p.steps.filter (·.kind ∈ kinds)).flatMap (·.secrets)
      return {
        trigger, guard, flow
        nodeNames := variableNames (p.steps.map (·.id))
        aliases := aliasNames kinds
        secrets := secrets.eraseDups.mergeSort fun a b => a ≤ b }

/-- The kinds of the actions that a handler executes, in the order in which they are written. -/
def kinds (h : Handler) : List String := h.aliases.map (·.1)

def variableOf (h : Handler) (id : String) : String := (h.nodeNames.lookup id).getD (identifier id)

def aliasOf (h : Handler) (kind : String) : String := (h.aliases.lookup kind).getD kind

/-- The modules that a handler imports. -/
def imports (h : Handler) : List String :=
  [runtimeModule, loggerModule] ++ (h.kinds.map nodeModule).eraseDups

end Handler

def Handler.GenerateError.message : Handler.GenerateError → String
  | .noEntry => "Entry point node not found"
  | .unsupportedTrigger kind => "Unsupported trigger type: " ++ kind
  | .tooDeep => "graph too deep"
  | .fault f => f.message

end Workflow
