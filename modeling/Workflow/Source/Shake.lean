/-
Removing what a script does not need: definitions that nothing refers to, and
descriptions.

A definition at the top level is live when its name is asked for, mentioned by
a statement that is no definition, or mentioned by a live definition.
-/
import Workflow.Graph.Reach
import Workflow.Source.Names

namespace Workflow.Source

/-- The names that the definitions of a script define at its top level. -/
def definedNames (body : List Stmt) : List String := body.filterMap (·.definedName?)

/-- The names that the statements other than definitions mention. -/
def looseNames (body : List Stmt) : List String :=
  (body.filter fun s => s.definedName?.isNone).flatMap (·.names)

/-- The names that the definitions of a name mention. -/
def mentionedBy (body : List Stmt) (name : String) : List String :=
  (body.filter fun s => s.definedName? = some name).flatMap (·.names)

/-- The defined names that are live when the `roots` are asked for. -/
def liveNames (body : List Stmt) (roots : List String) : List String :=
  Graph.reachable (mentionedBy body) (definedNames body) (roots ++ looseNames body)

/-- Whether a statement stays: every one that is no definition, and the live definitions. -/
def staysWith (live : List String) (s : Stmt) : Bool :=
  match s.definedName? with
  | some name => live.contains name
  | none => true

/-- A script without the definitions that are not live. -/
def shake (body : List Stmt) (roots : List String) : List Stmt :=
  body.filter (staysWith (liveNames body roots))

/-- The names of the definitions that shaking removes, in increasing order. -/
def shakenNames (body : List Stmt) (roots : List String) : List String :=
  let live := liveNames body roots
  sortedNames ((definedNames body).filter fun n => !live.contains n)

/-- A block without the description that opens it. -/
def dropDescription : List Stmt → List Stmt
  | [] => []
  | s :: rest => if s.docText?.isSome then rest else s :: rest

/-- The body of a definition without the description that opens it; one that holds nothing else
is left with a `pass`. -/
def strippedBody : List Stmt → List Stmt
  | [] => []
  | s :: rest =>
    if s.docText?.isSome then (if rest.isEmpty then [.pass] else rest) else s :: rest

mutual

/-- A statement with the definitions in it stripped of their descriptions. -/
def Stmt.strip : Stmt → Stmt
  | .function isAsync name params returns decorators body =>
    .function isAsync name params returns decorators (strippedBody (stripBlock body))
  | .classDef name bases keywords decorators body =>
    .classDef name bases keywords decorators (strippedBody (stripBlock body))
  | .forEach isAsync target iter body orElse =>
    .forEach isAsync target iter (stripBlock body) (stripBlock orElse)
  | .loop test body orElse => .loop test (stripBlock body) (stripBlock orElse)
  | .branch test body orElse => .branch test (stripBlock body) (stripBlock orElse)
  | .using isAsync items body => .using isAsync items (stripBlock body)
  | .select subject cases => .select subject (stripCases cases)
  | .attempt group body handlers orElse ensure =>
    .attempt group (stripBlock body) (stripHandlers handlers) (stripBlock orElse) (stripBlock ensure)
  | s => s
termination_by structural s => s

def stripBlock : List Stmt → List Stmt
  | [] => []
  | s :: rest => s.strip :: stripBlock rest
termination_by structural body => body

def stripHandlers : List Handler → List Handler
  | [] => []
  | .mk type name body :: rest => .mk type name (stripBlock body) :: stripHandlers rest
termination_by structural handlers => handlers

def stripCases : List Case → List Case
  | [] => []
  | .mk pattern guard body :: rest => .mk pattern guard (stripBlock body) :: stripCases rest
termination_by structural cases => cases

end

/-- A script without the descriptions that open it and its definitions. -/
def stripScript (body : List Stmt) : List Stmt := dropDescription (stripBlock body)

end Workflow.Source
