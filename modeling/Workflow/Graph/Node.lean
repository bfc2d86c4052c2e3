/-
Nodes and edges of a workflow graph, as an editor writes them.
-/
import Workflow.Schema.Check

namespace Workflow

/-- Where the implementation of a node comes from. -/
inductive Category where
  | core
  | defaultLib
  | externalLib
  deriving Repr, DecidableEq, Inhabited

def Category.name : Category → String
  | core => "core"
  | defaultLib => "default-lib"
  | externalLib => "external-lib"

/-- The part that a node plays: it starts a run, or it is a step of one. -/
inductive Role where
  | trigger
  | action
  deriving Repr, DecidableEq, Inhabited

def Role.name : Role → String
  | trigger => "trigger"
  | action => "action"

structure Port where
  id : String
  label : Option String := none
  type : String := "control"
  deriving Repr, DecidableEq, Inhabited

/-- A node as it is written. What is left out is filled in from its kind. -/
structure Node where
  id : String
  kind : String
  role : Option Role := none
  structural : Option Bool := none
  category : Option Category := none
  config : Names := []
  inputPorts : List Port := []
  outputPorts : List Port := []
  secrets : List String := []
  deriving Inhabited

/-- An edge between two nodes. It may leave and enter by a port. -/
structure Edge where
  id : String := ""
  source : String
  target : String
  sourcePort : Option String := none
  targetPort : Option String := none
  deriving Repr, DecidableEq, Inhabited

/-- What the kinds of triggers start with. -/
def triggerStart : String := "trigger-"

/-- Whether a node starts runs: its role says so, or its kind. -/
def Node.isTrigger (n : Node) : Bool := n.role = some .trigger || n.kind.startsWith triggerStart

open Check

def Port.check : Check Port := record "NodePort" fun r =>
  Port.mk <$> required "id" "id" (text 0) r <*>
    defaulted "label" "label" none (optional (text 0)) r <*>
    defaulted "type" "type" "control" (text 0) r

def Node.check : Check Node := record "Node" fun r =>
  Node.mk <$> required "id" "id" (text 1) r <*>
    defaulted "type" "kind" "unknown" (trimmed "Node kind must not be empty") r <*>
    defaulted "nodeType" "node_type" none
      (optional (choice true ([Role.trigger, .action].map fun x => (x.name, x)))) r <*>
    defaulted "isStructural" "is_structural" none (optional flag) r <*>
    defaulted "category" "category" none
      (optional
        (choice true ([Category.core, .defaultLib, .externalLib].map fun x => (x.name, x)))) r <*>
    defaulted "properties" "config" [] Check.names r <*>
    defaulted "customInputs" "custom_inputs" [] (listOf Port.check) r <*>
    defaulted "customOutputs" "custom_outputs" [] (listOf Port.check) r <*>
    defaulted "secrets" "secrets" [] (listOf (text 0)) r

def Edge.check : Check Edge := record "Edge" fun r =>
  Edge.mk <$> defaulted "id" "id" "" (text 0) r <*>
    required "source" "source" (text 0) r <*>
    required "target" "target" (text 0) r <*>
    defaulted "sourceHandle" "source_port" none (optional (text 0)) r <*>
    defaulted "targetHandle" "target_port" none (optional (text 0)) r

def Node.read (v : Value) : Except String Node :=
  (Node.check v).toExcept.mapError (report "Node")

def Edge.read (v : Value) : Except String Edge :=
  (Edge.check v).toExcept.mapError (report "Edge")

end Workflow
