/-
The modules that a build can see beside those that it is given: the standard
library, a few packages, and the modules that ship with the bundler.
-/
import Workflow.Bundle.Shipped.CodeNode
import Workflow.Bundle.Shipped.Context
import Workflow.Bundle.Shipped.Expressions
import Workflow.Bundle.Shipped.HttpRequest
import Workflow.Bundle.Shipped.Logger
import Workflow.Bundle.Shipped.NodeBase
import Workflow.Bundle.Shipped.SendEmail
import Workflow.Bundle.Standard
import Workflow.Text.Quoted

namespace Workflow.Bundle

def installedPackages : List String := ["aiohttp"]

/-- Whether a module with this first name is found when a bundle is deployed. -/
def isInstalled (top : String) : Bool :=
  installedPackages.contains top || standardModules.contains top && !foreignModules.contains top

/-- The package whose modules ship with the bundler. -/
def shippedPackage : String := "flowsmith"

/-- The names of the modules that ship with the bundler. -/
def contextModule : String := "flowsmith.runtime.context"

@[inherit_doc contextModule]
def logModule : String := "flowsmith.runtime.logger"

@[inherit_doc contextModule]
def formulaModule : String := "flowsmith.runtime.expressions"

@[inherit_doc contextModule]
def baseModule : String := "flowsmith.nodes.base"

@[inherit_doc contextModule]
def requestNodeModule : String := "flowsmith.nodes.http_request.runtime"

@[inherit_doc contextModule]
def codeNodeModule : String := "flowsmith.nodes.code.runtime"

@[inherit_doc contextModule]
def emailNodeModule : String := "flowsmith.nodes.resend.send_email.runtime"

/-- The modules that ship with the bundler, with their lines. -/
def shippedModules : List (String × List String) := [
  (contextModule, Shipped.contextLines),
  (logModule, Shipped.loggerLines),
  (formulaModule, Shipped.expressionsLines),
  (baseModule, Shipped.nodeBaseLines),
  (requestNodeModule, Shipped.httpRequestLines),
  (codeNodeModule, Shipped.codeNodeLines),
  (emailNodeModule, Shipped.sendEmailLines)]

def fileText (lines : List String) : String := String.join (lines.map (· ++ "\n"))

inductive ReadFault where
  /-- No provider is registered under the name. -/
  | unregistered (module : String)
  /-- The package that should hold the module is not found. -/
  | noPackage (name : String)
  /-- The module is not found, or is not a text. -/
  | noSource (module : String)
  deriving Repr, DecidableEq, Inhabited

def ReadFault.message : ReadFault → String
  | unregistered module => Text.quoted module
  | noPackage name => "No module named '" ++ name ++ "'"
  | noSource module => "No Python source found for provider module " ++ module

/-- The packages around a module, outermost first. -/
def packagesOf (module : String) : List String :=
  let parts := module.splitOn "."
  (List.range (parts.length - 1)).map fun n => ".".intercalate (parts.take (n + 1))

/-- Whether a package is found: one with an installed first name, or one around a shipped module. -/
def isPackage (name : String) : Bool :=
  isInstalled name || shippedModules.any fun (module, _) => (packagesOf module).contains name

/-- The text of an installed module. -/
def installedSource (module : String) : Except ReadFault String :=
  match (packagesOf module).find? fun name => !isPackage name with
  | some name => .error (.noPackage name)
  | none =>
    match shippedModules.lookup module with
    | some lines => .ok (fileText lines)
    | none => .error (.noSource module)

end Workflow.Bundle
