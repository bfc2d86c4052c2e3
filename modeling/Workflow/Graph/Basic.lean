/-
Workflow graphs: nodes with distinct ids, and edges between them.

Edges may name nodes that do not exist; the neighbours of a node are taken
along edges whose two ends exist.
-/
import Workflow.Graph.Node
import Workflow.Graph.Reach

namespace Workflow

structure Graph where
  nodes : List Node
  edges : List Edge
  deriving Inhabited

/-- Adds a node to others; one of the same id is replaced at its place. -/
def putNode (n : Node) : List Node → List Node
  | [] => [n]
  | m :: rest => if m.id = n.id then n :: rest else m :: putNode n rest

namespace Graph

/-- The graph of the given nodes and edges. Of nodes with one id the last one counts. -/
def make (nodes : List Node) (edges : List Edge) : Graph :=
  { nodes := nodes.foldl (fun known n => putNode n known) [], edges }

def ids (g : Graph) : List String := g.nodes.map (·.id)

def has (g : Graph) (id : String) : Bool := g.nodes.any (·.id = id)

/-- Whether both ends of an edge exist. -/
def connects (g : Graph) (e : Edge) : Bool := g.has e.source && g.has e.target

/-- The targets of the edges that leave a node, in the order of the edges. -/
def successors (g : Graph) (id : String) : List String :=
  (g.edges.filter fun e => e.source = id && g.connects e).map (·.target)

/-- The sources of the edges that enter a node, in the order of the edges. -/
def predecessors (g : Graph) (id : String) : List String :=
  (g.edges.filter fun e => e.target = id && g.connects e).map (·.source)

/-- The node that starts runs: the first trigger. -/
def entry? (g : Graph) : Option String := (g.nodes.find? (·.isTrigger)).map (·.id)

/-- The nodes that cannot be reached from a start, in the order of the nodes. -/
def unreachable (g : Graph) (start : String) : List String :=
  let seen := start :: Graph.reachable g.successors g.ids (g.successors start)
  g.ids.filter (· ∉ seen)

end Graph

end Workflow
