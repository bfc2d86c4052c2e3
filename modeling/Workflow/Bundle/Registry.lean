/-
The registry of modules that bundles may embed.

Generated code imports by specifier; a specifier stands for a provider module,
and provider modules may also be imported by their own names. The runtime of a
node kind has a specifier made from the kind, so that two kinds cannot share
one.
-/
import Workflow.Bundle.Installed
import Workflow.Handler.Identifier
import Workflow.Source.Names
import Workflow.Table

namespace Workflow.Bundle

/-- The modules that bundles may embed. -/
structure Registry where
  /-- The specifiers with the modules that they stand for. -/
  specifiers : List (String × String)
  /-- The provider modules, with their sources unless they are installed. -/
  providers : List (String × Option String)
  /-- The node kinds with the specifiers of their runtimes. -/
  nodeKinds : List (String × String)
  deriving Repr, DecidableEq, Inhabited

/-- Two node kinds whose runtimes would have the same specifier. -/
structure KindClash where
  known : String
  kind : String
  specifier : String
  deriving Repr, DecidableEq, Inhabited

def KindClash.message (c : KindClash) : String :=
  "Node kinds " ++ Text.quoted c.known ++ " and " ++ Text.quoted c.kind ++
    " share the import name " ++ c.specifier

namespace Registry

def empty : Registry := ⟨[], [], []⟩

/-- Registers a provider that is reached by its own name only. -/
def registerInternal (r : Registry) (module : String) (source : Option String) : Registry :=
  { r with providers := putEntry module source r.providers }

/-- Registers a provider and the specifier that stands for it. -/
def register (r : Registry) (specifier module : String) (source : Option String) : Registry :=
  { r with
    specifiers := putEntry specifier module r.specifiers
    providers := putEntry module source r.providers }

/-- Registers the runtime of a node kind, unless another kind has its specifier. -/
def registerNode (r : Registry) (kind module : String) (source : Option String) :
    Except KindClash Registry :=
  let specifier := Handler.nodeModule kind
  match r.nodeKinds.find? fun (known, s) => known ≠ kind && s = specifier with
  | some (known, _) => .error ⟨known, kind, specifier⟩
  | none =>
    .ok ({ r with nodeKinds := putEntry kind specifier r.nodeKinds }.register specifier module source)

def hasNode (r : Registry) (kind : String) : Bool := (r.nodeKinds.lookup kind).isSome

/-- The registered node kinds, in increasing order. -/
def kinds (r : Registry) : List String := Source.sortedNames (r.nodeKinds.map (·.1))

/-- Those of some node kinds that are not registered. -/
def missingNodes (r : Registry) (kinds : List String) : List String :=
  kinds.filter fun kind => !r.hasNode kind

/-- The provider module that an import stands for. -/
def resolve (r : Registry) (name : String) : Option String :=
  match r.specifiers.lookup name with
  | some module => some module
  | none => if (r.providers.lookup name).isSome then some name else none

def readSource (r : Registry) (module : String) : Except ReadFault String :=
  match r.providers.lookup module with
  | none => .error (.unregistered module)
  | some (some source) => .ok source
  | some none => installedSource module

/-- The registry of what ships with the bundler. -/
def shipped : Registry :=
  let node (r : Registry) (kind module : String) : Registry :=
    match r.registerNode kind module none with
    | .ok r => r
    | .error _ => r
  let base := (((empty.register Handler.runtimeModule contextModule none).register
    Handler.loggerModule logModule none).register
    Handler.nodeBaseModule baseModule none).registerInternal formulaModule none
  [("http-request", requestNodeModule), ("code", codeNodeModule), ("send-email", emailNodeModule),
    ("resend-send-email", emailNodeModule)].foldl (fun r (kind, module) => node r kind module) base

end Registry

/-- Whether a name belongs to generated code or to the bundler, so that it is never looked for
among the installed modules. -/
def isInternalName (name : String) : Bool :=
  let top := Source.firstPart name
  top = Handler.runtimeModule || top = Handler.nodeBaseModule || top.startsWith "nodes_" ||
    top = shippedPackage

end Workflow.Bundle
