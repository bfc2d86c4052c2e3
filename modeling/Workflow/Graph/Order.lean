/-
The order in which nodes can be executed: each after all its predecessors.
Nodes without pending predecessors wait in a queue; taking one may free its
successors.
-/
import Workflow.Graph.Basic

namespace Workflow.Graph

/-- How often each node is the target of an edge. -/
def inDegrees (g : Graph) : List (String × Nat) :=
  g.nodes.map fun n => (n.id, (g.predecessors n.id).length)

/-- Takes one from the number of a node's pending predecessors, and puts the node into the queue
when none is left. -/
def release (pending : List (String × Nat) × List String) (id : String) :
    List (String × Nat) × List String :=
  let (degrees, queue) := pending
  let degree := (degrees.lookup id).getD 0
  (degrees.map fun (k, d) => (k, if k = id then d - 1 else d),
    if degree = 1 then queue ++ [id] else queue)

/-- Takes nodes from the queue for at most `fuel` steps. -/
def takeReady (next : String → List String) :
    Nat → List (String × Nat) → List String → List String → List String
  | 0, _, _, done => done.reverse
  | _ + 1, _, [], done => done.reverse
  | fuel + 1, degrees, id :: queue, done =>
    let (degrees, queue) := (next id).foldl release (degrees, queue)
    takeReady next fuel degrees queue (id :: done)

/-- The nodes in the order in which they are freed. Each is freed at most once, so that as many
steps as there are nodes are enough. -/
def readyOrder (g : Graph) : List String :=
  let degrees := g.inDegrees
  takeReady g.successors g.nodes.length degrees ((degrees.filter (·.2 = 0)).map (·.1)) []

/-- The order in which nodes can be executed, or the nodes that no order can hold. -/
def executionOrder (g : Graph) : Except (List String) (List String) :=
  let order := g.readyOrder
  if order.length = g.nodes.length then .ok order
  else .error (g.ids.filter (· ∉ order))

end Workflow.Graph
