/-
Plans: workflow graphs with everything that their nodes leave to their kinds
filled in, the entry found, and their shape measured.
-/
import Workflow.Graph.Cycle
import Workflow.Graph.Depth
import Workflow.Graph.Kind
import Workflow.Graph.Order
import Workflow.Value.Sequence

namespace Workflow

/-- A node with what its kind says of it filled in. -/
structure Step where
  id : String
  kind : String
  role : Role
  data : Names
  structural : Bool
  category : Category
  inputs : List String := []
  outputs : List String := []
  secrets : List String := []
  ports : List Port := []
  /-- Whether the node or its kind says what role it plays. -/
  known : Bool := true
  deriving Inhabited

def Step.isTrigger (s : Step) : Bool := s.role = .trigger

/-- A workflow graph ready for generation. -/
structure Plan where
  steps : List Step
  edges : List Edge
  entry : String
  hasCycle : Bool
  depth : Nat
  deriving Inhabited

namespace Plan

def step? (p : Plan) (id : String) : Option Step := p.steps.find? (·.id = id)

/-- The edges that leave a node. -/
def outgoing (p : Plan) (id : String) : List Edge := p.edges.filter (·.source = id)

/-- The target of the first edge that leaves a node by a port. -/
def portTarget (p : Plan) (id port : String) : Option String :=
  (p.edges.find? fun e => e.source = id && e.sourcePort = some port).map (·.target)

/-- The target of the first edge that leaves a node. -/
def nextTarget (p : Plan) (id : String) : Option String :=
  (p.edges.find? (·.source = id)).map (·.target)

end Plan

namespace Graph

/-- A node of a graph with what its kind says of it filled in. -/
def step (g : Graph) (n : Node) : Step :=
  let kind := Kind.find? n.kind
  { id := n.id
    kind := n.kind
    role := if n.isTrigger then .trigger else (kind.map (·.role)).getD .action
    data := n.config
    structural := n.structural.getD ((kind.map (·.structural)).getD (n.kind ∈ structuralKinds))
    category := n.category.getD ((kind.map (·.category)).getD .externalLib)
    inputs := g.predecessors n.id
    outputs := g.successors n.id
    secrets := if n.secrets.isEmpty then (kind.map (·.secrets)).getD [] else n.secrets
    ports :=
      if n.outputPorts.isEmpty then
        ((kind.map (·.outputs)).getD []).map fun id => { id }
      else n.outputPorts
    known := n.role.isSome || kind.isSome }

def steps (g : Graph) : List Step := g.nodes.map g.step

/-- The plan of a graph, if it has an entry. -/
def plan? (g : Graph) : Option Plan :=
  g.entry?.map fun entry =>
    { steps := g.steps, edges := g.edges, entry, hasCycle := g.hasCycle, depth := g.depthBelow entry }

/-- A port of a control-flow construct and the nodes that it leads to. -/
structure PortTargets where
  port : Port
  targets : List String
  deriving Repr, DecidableEq, Inhabited

/-- The ports of every control-flow construct and the nodes that they lead to. -/
def controlFlow (g : Graph) : List (Step × List PortTargets) :=
  (g.steps.filter (·.structural)).map fun s =>
    (s, s.ports.map fun port =>
      { port, targets := (g.edges.filter fun e =>
          e.source = s.id && e.sourcePort = some port.id).map (·.target) })

/-- Why a graph cannot be read. -/
inductive ReadError where
  /-- Nodes or edges that are no sequence. -/
  | fault (f : Fault)
  /-- The report on the first node or edge that is not well-formed. -/
  | invalid (report : String)
  deriving Repr, DecidableEq, Inhabited

/-- Reads items in order up to the first that is not well-formed. -/
def readItems {α : Type} (read : Value → Except String α) : List Value → Except ReadError (List α)
  | [] => .ok []
  | v :: rest =>
    match read v with
    | .error report => .error (.invalid report)
    | .ok a => (readItems read rest).map (a :: ·)

/-- The items of a sequence. -/
def sequence (v : Value) : Except ReadError (List Value) := v.iterate.mapError .fault

def read (nodes edges : Value) : Except ReadError Graph := do
  let nodes ← readItems Node.read (← sequence nodes)
  let edges ← readItems Edge.read (← sequence edges)
  return make nodes edges

end Graph

end Workflow
