/-
Compiling a workflow graph into the text of its handler.
-/
import Workflow.Handler.Text

namespace Workflow

/-- The size and shape of a workflow. -/
structure Measures where
  nodeCount : Nat
  edgeCount : Nat
  hasCycle : Bool
  depth : Nat
  deriving Repr, DecidableEq, Inhabited

structure Compiled where
  code : String
  /-- The kinds of the actions in the code. -/
  usedKinds : List String
  warnings : List String
  measures : Measures
  deriving Repr, DecidableEq, Inhabited

inductive CompileError where
  | noNodes
  /-- The report on the first node or edge that is not well-formed. -/
  | invalid (report : String)
  | noTrigger
  | generation (e : Handler.GenerateError)
  /-- Nodes, edges or a part of a configuration that should be a sequence and is none. -/
  | fault (f : Fault)
  deriving Repr, DecidableEq, Inhabited

/-- What is said when a workflow cannot be compiled. -/
def CompileError.message : CompileError → String
  | noNodes => "Workflow must contain at least one node"
  | invalid report => "Graph analysis failed: " ++ report
  | noTrigger => "Graph analysis failed: No trigger node found in workflow"
  | generation e => "Code generation failed: " ++ e.message
  | fault f => f.message

def unreachableWarning (ids : List String) : List String :=
  if ids.isEmpty then []
  else
    ["Found " ++ Number.natText ids.length ++ " disconnected node(s): " ++ ", ".intercalate ids]

def stepWarning (s : Step) : Option String :=
  if s.known then
    (configProblem s.kind (Value.ofFields s.data)).map fun problem =>
      "Node " ++ s.id ++ " has invalid configuration: " ++ problem
  else some ("Node " ++ s.id ++ " is missing type definition")

/-- What a workflow leaves to be desired. -/
def planWarnings (g : Graph) (p : Plan) : List String :=
  unreachableWarning (g.unreachable p.entry) ++
    (if p.hasCycle then
      ["Workflow contains loops - make sure loop conditions are properly defined"]
    else []) ++
    p.steps.filterMap stepWarning

def planOf (g : Graph) : Except CompileError Plan :=
  match g.plan? with
  | some p => .ok p
  | none => .error .noTrigger

def readGraph (nodes edges : Value) : Except CompileError Graph :=
  (Graph.read nodes edges).mapError fun
    | .fault f => .fault f
    | .invalid report => .invalid report

def handlerOf (p : Plan) : Except CompileError Handler :=
  (Handler.ofPlan p).mapError fun
    | .fault f => .fault f
    | e => .generation e

/-- How many items a sequence has. -/
def itemCount (v : Value) : Nat := ((v.items?).map List.length).getD 0

/-- Compiles a workflow and gives its handler too. -/
def compileHandler (nodes edges : Value) : Except CompileError (Handler × Compiled) := do
  if !nodes.truthy then throw .noNodes
  let g ← readGraph nodes edges
  let p ← planOf g
  let h ← handlerOf p
  return (h,
    { code := h.code
      usedKinds := h.kinds
      warnings := planWarnings g p
      measures :=
        { nodeCount := itemCount nodes, edgeCount := itemCount edges, hasCycle := p.hasCycle,
          depth := p.depth } })

def compile (nodes edges : Value) : Except CompileError Compiled :=
  (compileHandler nodes edges).map (·.2)

end Workflow
