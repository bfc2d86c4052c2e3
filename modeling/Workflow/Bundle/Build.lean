/-
Building one script from an entry and the modules that it needs.

A build links the imports of the entry and of every module that it needs,
leaves out the definitions that nobody asks for, and joins the texts behind a
loader. The modules are kept as texts that the loader runs when they are first
asked for.
-/
import Workflow.Bundle.Link
import Workflow.Source.Printer
import Workflow.Source.Shake
import Workflow.Source.Validity

namespace Workflow.Bundle

open Source

/-- A script with the modules embedded in it. -/
structure Linked where
  /-- The imports of features of the language, which stand before everything else. -/
  features : List Import
  modules : List (String × List Stmt)
  entry : List Stmt
  /-- The first names of the installed modules that are imported. -/
  external : List String
  deriving Inhabited

/-- A module with its imports linked, without what nobody asks for and, when `minify` is set,
without descriptions. -/
def Embedded.linked (r : Registry) (minify : Bool) (e : Embedded) :
    Except BuildError (String × List Stmt) :=
  let body := linkedScript r (.module e.name) e.body
  let bound := boundNames body
  match sortedNames (e.requested.filter (· ∉ bound)) with
  | [] =>
    let live := if e.whole then body else shake body e.requested
    .ok (e.name, if minify then stripScript live else live)
  | missing => .error (.undefined e.name missing)

/-- Links an entry with the modules that it needs. -/
def link (r : Registry) (installed : String → Bool) (minify : Bool) (entry : List Stmt) :
    Except BuildError Linked := do
  let s ← Linking.collect r installed entry
  let modules ← s.modules.mapM (·.linked r minify)
  let body := linkedScript r .entry entry
  return {
    features := (blockImports entry).filter (·.isFuture)
    modules
    entry := if minify then stripScript body else body
    external := s.external }

namespace Linked

/-- The embedded modules as a literal. -/
def sourcesText (l : Linked) : String :=
  "\x7b\n" ++ String.join (l.modules.map fun (name, body) =>
    "    " ++ Text.quoted name ++ ": " ++ Text.quoted (scriptText body ++ "\n") ++ ",\n") ++ "\x7d"

/-- The part of a bundle that holds the embedded modules and loads them. -/
def loaderText (l : Linked) : String :=
  "import types as _bundle_types\n\n_BUNDLE_SOURCES = " ++ l.sourcesText ++
    "\n_BUNDLE_CACHE = \x7b\x7d\n\n\n" ++
    "def " ++ loaderName ++ "(name):\n" ++
    "    module = _BUNDLE_CACHE.get(name)\n" ++
    "    if module is None:\n" ++
    "        module = _bundle_types.ModuleType(name)\n" ++
    "        module.__dict__[\"" ++ loaderName ++ "\"] = " ++ loaderName ++ "\n" ++
    "        _BUNDLE_CACHE[name] = module\n" ++
    "        exec(compile(_BUNDLE_SOURCES[name], \"<bundle:\" + name + \">\", \"exec\"), " ++
    "module.__dict__)\n" ++
    "    return module\n"

def text (l : Linked) : String :=
  let features :=
    if l.features.isEmpty then []
    else ["\n".intercalate (l.features.map (·.toStmt.text)) ++ "\n"]
  "\n\n".intercalate (features ++ [l.loaderText, scriptText l.entry ++ "\n"])

def embedded (l : Linked) : List String := l.modules.map (·.1)

/-- The installed modules that do not come with the language. -/
def packages (l : Linked) : List String := l.external.filter (· ∉ standardModules)

/-- Whether the text of a bundle is a script that can be run. -/
def isRunnable (l : Linked) : Bool :=
  match readScript l.text with
  | .ok body => isValid body
  | .error _ => false

end Linked

/-- Builds a script from the text of its entry, which comes from `origin`. -/
def build (r : Registry) (minify : Bool) (origin code : String)
    (installed : String → Bool := isInstalled) : Except BuildError Linked := do
  let entry ← readAs origin code
  let linked ← link r installed minify entry
  if linked.isRunnable then return linked else throw .invalid

end Workflow.Bundle
