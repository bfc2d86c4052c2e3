/-
The import statements of scripts.

An import of a module that the registry serves becomes an assignment from a
call of the loader; every other import stays. `Import.asks` says what an import
asks the build for, alias by alias, and `Import.linked` what it becomes: neither
depends on how far a build has come. Which modules are installed is given.
-/
import Workflow.Bundle.Registry
import Workflow.Source.Tree

namespace Workflow.Bundle

open Source

inductive Import where
  /-- `import a, b as c` -/
  | modules (names : List Alias)
  /-- `from module import a, b as c`, with `level` dots before the module -/
  | members (module : Option String) (names : List Alias) (level : Nat)
  deriving Repr, DecidableEq, Inhabited

def Import.toStmt : Import → Stmt
  | modules names => .importNames names
  | members module names level => .importFrom module names level

/-- Whether an import asks for features of the language. -/
def Import.isFuture : Import → Bool
  | modules _ => false
  | members module _ level => module = some "__future__" && level = 0

mutual

/-- The imports in a statement, at any depth, in order. -/
def stmtImports : Stmt → List Import
  | .importNames names => [.modules names]
  | .importFrom module names level => [.members module names level]
  | .function _ _ _ _ _ body => blockImports body
  | .classDef _ _ _ _ body => blockImports body
  | .forEach _ _ _ body orElse => blockImports body ++ blockImports orElse
  | .loop _ body orElse => blockImports body ++ blockImports orElse
  | .branch _ body orElse => blockImports body ++ blockImports orElse
  | .using _ _ body => blockImports body
  | .select _ cases => caseImports cases
  | .attempt _ body handlers orElse ensure =>
    blockImports body ++ handlerImports handlers ++ blockImports orElse ++ blockImports ensure
  | _ => []
termination_by structural s => s

def blockImports : List Stmt → List Import
  | [] => []
  | s :: rest => stmtImports s ++ blockImports rest
termination_by structural body => body

def handlerImports : List Source.Handler → List Import
  | [] => []
  | .mk _ _ body :: rest => blockImports body ++ handlerImports rest
termination_by structural handlers => handlers

def caseImports : List Case → List Import
  | [] => []
  | .mk _ _ body :: rest => blockImports body ++ caseImports rest
termination_by structural cases => cases

end

mutual

/-- A statement with its imports replaced. -/
def stmtLinked (f : Import → List Stmt) : Stmt → List Stmt
  | .importNames names => f (.modules names)
  | .importFrom module names level => f (.members module names level)
  | .function isAsync name params returns decorators body =>
    [.function isAsync name params returns decorators (blockLinked f body)]
  | .classDef name bases keywords decorators body =>
    [.classDef name bases keywords decorators (blockLinked f body)]
  | .forEach isAsync target iter body orElse =>
    [.forEach isAsync target iter (blockLinked f body) (blockLinked f orElse)]
  | .loop test body orElse => [.loop test (blockLinked f body) (blockLinked f orElse)]
  | .branch test body orElse => [.branch test (blockLinked f body) (blockLinked f orElse)]
  | .using isAsync items body => [.using isAsync items (blockLinked f body)]
  | .select subject cases => [.select subject (casesLinked f cases)]
  | .attempt group body handlers orElse ensure =>
    [.attempt group (blockLinked f body) (handlersLinked f handlers) (blockLinked f orElse)
      (blockLinked f ensure)]
  | s => [s]
termination_by structural s => s

def blockLinked (f : Import → List Stmt) : List Stmt → List Stmt
  | [] => []
  | s :: rest => stmtLinked f s ++ blockLinked f rest
termination_by structural body => body

def handlersLinked (f : Import → List Stmt) : List Source.Handler → List Source.Handler
  | [] => []
  | .mk type name body :: rest => .mk type name (blockLinked f body) :: handlersLinked f rest
termination_by structural handlers => handlers

def casesLinked (f : Import → List Stmt) : List Case → List Case
  | [] => []
  | .mk pattern guard body :: rest => .mk pattern guard (blockLinked f body) :: casesLinked f rest
termination_by structural cases => cases

end

/-- The script that imports: the entry of a bundle or a module embedded in it. -/
inductive Importer where
  | entry
  | module (name : String)
  deriving Repr, DecidableEq, Inhabited

/-- An importer as messages name it. -/
def Importer.shown : Importer → String
  | entry => "<entry>"
  | module name => if name = "" then "<entry>" else name

inductive BuildError where
  | malformed (origin : String)
  | nullCharacter
  | relativeInEntry
  | noPackage (module written : String)
  | beyondTop (module : String)
  | unresolved (name : String) (importer : Importer)
  | starImport (name : String) (importer : Importer)
  | needsAlias (name : String) (importer : Importer)
  | unreadable (module : String) (fault : ReadFault)
  | noModule (fault : ReadFault)
  | undefined (module : String) (names : List String)
  | invalid
  deriving Repr, DecidableEq, Inhabited

def BuildError.message : BuildError → String
  | malformed origin => "Syntax error in " ++ origin ++ ": <syntax error>"
  | nullCharacter => "source code string cannot contain null bytes"
  | relativeInEntry => "Relative imports are not allowed in the entry module"
  | noPackage module written =>
    "Bad relative import in " ++ module ++ ": no package specified for " ++ Text.quoted written ++
      " (required for relative module names)"
  | beyondTop module =>
    "Bad relative import in " ++ module ++
      ": attempted relative import beyond top-level package"
  | unresolved name importer =>
    "Cannot resolve module '" ++ name ++ "' (imported by " ++ importer.shown ++ ")"
  | starImport name importer =>
    "Star import of " ++ name ++ " in " ++ importer.shown ++ " cannot be bundled"
  | needsAlias name importer =>
    "'import " ++ name ++ "' in " ++ importer.shown ++ " needs an alias to be bundled"
  | unreadable module fault =>
    "Cannot read runtime module " ++ module ++ ": " ++ fault.message
  | noModule fault => fault.message
  | undefined module names => "Module " ++ module ++ " does not define: " ++ ", ".intercalate names
  | invalid => "Bundle is not valid Python: <syntax error>"

/-- The code under which an error is reported, unless it is a failure of the builder itself. -/
def BuildError.code? : BuildError → Option String
  | nullCharacter => none
  | noModule _ => none
  | unresolved .. => some "MODULE_NOT_FOUND"
  | _ => some "BUILD_FAILED"

/-- The full name of an imported module. Each dot beyond the first leaves one more package. -/
def absoluteName (importer : Importer) (module : Option String) (level : Nat) :
    Except BuildError String :=
  let name := module.getD ""
  if level = 0 then .ok name
  else
    match importer with
    | .entry => .error .relativeInEntry
    | .module self =>
      let package := (self.splitOn ".").dropLast
      if ".".intercalate package = "" then
        .error (.noPackage self (String.ofList (List.replicate level '.') ++ name))
      else if package.length < level then .error (.beyondTop self)
      else
        let base := ".".intercalate (package.take (package.length - (level - 1)))
        .ok (if name = "" then base else base ++ "." ++ name)

/-- Where an imported module comes from. -/
inductive Target where
  /-- A provider module, which is embedded. -/
  | inside (module : String)
  /-- An installed module, of which the first name is given. -/
  | outside (top : String)
  deriving Repr, DecidableEq, Inhabited

/-- Finds an imported module; `installed` says of a first name whether it is found outside. -/
def Registry.find (r : Registry) (installed : String → Bool) (name : String) (importer : Importer) :
    Except BuildError Target :=
  match r.resolve name with
  | some module => .ok (.inside module)
  | none =>
    let top := firstPart name
    if !isInternalName name && installed top then .ok (.outside top)
    else .error (.unresolved name importer)

/-- What an import asks the build for. -/
inductive Ask where
  /-- An installed module. -/
  | outside (top : String)
  /-- A provider module with all that it defines. -/
  | whole (module : String)
  /-- One name of a provider module. -/
  | member (module name : String)
  deriving Repr, DecidableEq, Inhabited

/-- What an import asks for, in order, with the errors in the places where they arise. -/
def Import.asks (r : Registry) (installed : String → Bool) (importer : Importer) (i : Import) :
    List (Except BuildError Ask) :=
  if i.isFuture then []
  else
    match i with
    | modules names => names.map fun a =>
      match r.find installed a.name importer with
      | .error e => .error e
      | .ok (.outside top) => .ok (.outside top)
      | .ok (.inside module) =>
        if a.given.isNone && a.name.toList.contains '.' then .error (.needsAlias a.name importer)
        else .ok (.whole module)
    | members module names level =>
      match absoluteName importer module level with
      | .error e => [.error e]
      | .ok name =>
        match r.find installed name importer with
        | .error e => [.error e]
        | .ok (.outside top) => [.ok (.outside top)]
        | .ok (.inside module) => names.map fun a =>
          if a.name = "*" then .error (.starImport name importer) else .ok (.member module a.name)

def loaderName : String := "_bundle_require"

def loadCall (module : String) : Expr :=
  .call (.name loaderName) [.constant (.str module false)] []

/-- What an import becomes. -/
def Import.linked (r : Registry) (importer : Importer) (i : Import) : List Stmt :=
  if i.isFuture then (if importer = .entry then [] else [i.toStmt])
  else
    match i with
    | modules names =>
      let kept := names.filter fun a => (r.resolve a.name).isNone
      (if kept.isEmpty then [] else [.importNames kept]) ++
        names.filterMap fun a => (r.resolve a.name).map fun module =>
          .assign [.name (a.given.getD a.name)] (loadCall module)
    | members module names level =>
      match absoluteName importer module level with
      | .error _ => [i.toStmt]
      | .ok name =>
        match r.resolve name with
        | none => [i.toStmt]
        | some module => names.map fun a =>
          .assign [.name (a.given.getD a.name)] (.attr (loadCall module) a.name)

def scriptAsks (r : Registry) (installed : String → Bool) (importer : Importer)
    (body : List Stmt) : List (Except BuildError Ask) :=
  (blockImports body).flatMap (·.asks r installed importer)

def linkedScript (r : Registry) (importer : Importer) (body : List Stmt) : List Stmt :=
  blockLinked (·.linked r importer) body

end Workflow.Bundle
