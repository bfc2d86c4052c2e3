/-
Which scripts can be run: those whose statements stand where they are allowed,
and whose names are bound and declared without contradiction.
-/
import Workflow.Source.Mark
import Workflow.Source.Names

namespace Workflow.Source

/-- Whether two keys of a mapping pattern are the same literal. -/
def sameKey : Expr → Expr → Bool
  | .constant (.str a _), .constant (.str b _) => a = b
  | .constant (.int a), .constant (.int b) => a = b
  | .constant (.bytes a), .constant (.bytes b) => a = b
  | .constant (.bool a), .constant (.bool b) => a = b
  | .constant .none, .constant .none => true
  | .unary _ a, .unary _ b => sameKey a b
  | _, _ => false

/-- Whether a list of keys repeats a literal. -/
def repeatsKey : List Expr → Bool
  | [] => false
  | e :: rest => rest.any (sameKey e) || repeatsKey rest

mutual

/-- The names that a pattern binds. Alternatives bind the same names. -/
def Pattern.bound : Pattern → List String
  | .sequence items => boundIn items
  | .star name => name.toList
  | .mapping entries rest => boundInEntries entries ++ rest.toList
  | .instanceOf _ items named => boundIn items ++ boundInNamed named
  | .capture pattern name => pattern.bound ++ [name]
  | .bind name => [name]
  | .either options => boundInFirst options
  | _ => []
termination_by structural p => p

def boundIn : List Pattern → List String
  | [] => []
  | p :: rest => p.bound ++ boundIn rest
termination_by structural ps => ps

/-- The names that the first of several patterns binds. -/
def boundInFirst : List Pattern → List String
  | [] => []
  | p :: _ => p.bound
termination_by structural ps => ps

def boundInEntries : List (Expr × Pattern) → List String
  | [] => []
  | (_, p) :: rest => p.bound ++ boundInEntries rest
termination_by structural ps => ps

def boundInNamed : List (String × Pattern) → List String
  | [] => []
  | (_, p) :: rest => p.bound ++ boundInNamed rest
termination_by structural ps => ps

end

mutual

/-- Whether a pattern is well-formed. One that matches everything stands only where `last` says
that no alternative follows it. -/
def Pattern.isFine (last : Bool) : Pattern → Bool
  | .sequence items => (items.filter Pattern.isStar).length ≤ 1 && areFine items
  | .mapping entries _ => !repeatsKey (entries.map (·.1)) && entriesAreFine entries
  | .instanceOf _ items named =>
    let ids := named.map (·.1)
    !repeats ids && !ids.contains debugName && areFine items && namedAreFine named
  | .capture pattern _ => pattern.isFine last
  | .bind _ => last
  | .wildcard => last
  | .either options => optionsAreFine last options
  | _ => true
termination_by structural p => p

def areFine : List Pattern → Bool
  | [] => true
  | p :: rest => p.isFine true && areFine rest
termination_by structural ps => ps

/-- Whether alternatives are well-formed and bind the same names. -/
def optionsAreFine (last : Bool) : List Pattern → Bool
  | [] => true
  | [p] => p.isFine last
  | p :: q :: rest =>
    p.isFine false && sortedNames p.bound = sortedNames q.bound && optionsAreFine last (q :: rest)
termination_by structural ps => ps

def entriesAreFine : List (Expr × Pattern) → Bool
  | [] => true
  | (_, p) :: rest => p.isFine true && entriesAreFine rest
termination_by structural ps => ps

def namedAreFine : List (String × Pattern) → Bool
  | [] => true
  | (_, p) :: rest => p.isFine true && namedAreFine rest
termination_by structural ps => ps

end

def Pattern.marks (last : Bool) (p : Pattern) : List Mark :=
  faultIf (!p.isFine last || repeats p.bound) ++ p.names.map .use ++ p.bound.map .bind

/-- Where `break` and `continue` lead from a place. -/
inductive Jump where
  | nowhere
  | loop
  /-- Out of a handler of grouped errors, which is not allowed. -/
  | group
  deriving Repr, DecidableEq, Inhabited

/-- A place in the body of a function, class or script. -/
structure Place where
  /-- How many blocks that need cleaning up are around it. -/
  blocks : Nat := 0
  jump : Jump := .nowhere
  /-- Whether it is in a handler of grouped errors. -/
  grouped : Bool := false
  deriving Repr, DecidableEq, Inhabited

/-- How many such blocks may be nested. -/
def maxBlocks : Nat := 20

namespace Place

def inside (p : Place) (n : Nat) : Place := { p with blocks := p.blocks + n }

def inLoop (p : Place) : Place := { p.inside 1 with jump := .loop }

def inHandler (p : Place) (group : Bool) : Place :=
  if group then { p.inside 2 with jump := .group, grouped := true } else p.inside 2

/-- A fault, if a place is in too many blocks. -/
def faults (p : Place) : List Mark := faultIf (maxBlocks < p.blocks)

end Place

/-- Whether a handler names the errors that it is for. -/
def Handler.isTyped : Handler → Bool
  | .mk type .. => type.isSome

/-- A fault, if a function that waits both yields and returns a value. -/
def asyncGeneratorFaults (isAsync : Bool) (marks : List Mark) : List Mark :=
  let yields := marks.any fun
    | .yields => true
    | _ => false
  let returns := marks.any fun
    | .returns true => true
    | _ => false
  faultIf (isAsync && yields && returns)

def WithItem.marks (item : WithItem) : List Mark :=
  item.context.marks ++ (item.target.map Expr.targetMarks).getD []

/-- The mark of a name of an import. -/
def Alias.mark (a : Alias) : Mark := if a.name = "*" then .importAll else .bind a.boundName

/-- The module of the features that scripts choose. -/
def futureModule : String := "__future__"

mutual

/-- The marks of a statement at a place. -/
def Stmt.marks (p : Place) : Stmt → List Mark
  | .function isAsync name params returns decorators body =>
    let inner := blockMarks {} body
    [.bind name] ++ paramsMarks params ++ [.hint true (optionMarks returns)] ++
      exprMarks decorators ++
      [.scope (if isAsync then .asyncFunction else .function)
        (params.ids.map .param ++ inner ++ asyncGeneratorFaults isAsync inner)]
  | .classDef name bases keywords decorators body =>
    [.bind name] ++ starMarks bases ++ keywordMarks keywords ++ keywordFaults keywords ++
      exprMarks decorators ++ [.scope .classBody (blockMarks {} body)]
  | .ret value => optionMarks value ++ [.returns value.isSome] ++ faultIf p.grouped
  | .delete targets => targets.flatMap Expr.targetMarks
  | .assign targets value => targets.flatMap Expr.targetMarks ++ value.marks
  | .augment target _ value => target.targetMarks ++ value.marks
  | .annotate target hint value simple =>
    (match target with
      | .name id => if simple then [.annotate id] else if value.isSome then [.bind id] else []
      | target => target.targetMarks) ++
      [.hint false hint.marks] ++ optionMarks value
  | .forEach isAsync target iter body orElse =>
    target.targetMarks ++ iter.marks ++ (if isAsync then [.asyncStatement] else []) ++
      p.inLoop.faults ++ blockMarks p.inLoop body ++ blockMarks p orElse
  | .loop test body orElse =>
    test.marks ++ p.inLoop.faults ++ blockMarks p.inLoop body ++ blockMarks p orElse
  | .branch test body orElse => test.marks ++ blockMarks p body ++ blockMarks p orElse
  | .using isAsync items body =>
    let inner := p.inside items.length
    items.flatMap WithItem.marks ++ (if isAsync then [.asyncStatement] else []) ++ inner.faults ++
      blockMarks inner body
  | .select subject cases => subject.marks ++ caseMarks p cases
  | .raise error cause => optionMarks error ++ optionMarks cause
  | .attempt group body handlers orElse ensure =>
    let inner := if ensure.isEmpty then p else p.inside 1
    let tried := if handlers.isEmpty then inner else inner.inside 1
    tried.faults ++ blockMarks tried body ++ blockMarks inner orElse ++
      faultIf (handlers.dropLast.any fun h => !h.isTyped) ++
      handlerMarks (inner.inHandler group) handlers ++ blockMarks inner ensure
  | .assertion test message => test.marks ++ optionMarks message
  | .importNames names => names.map Alias.mark
  | .importFrom module names level =>
    names.map Alias.mark ++ faultIf (module = some futureModule && level = 0)
  | .globalNames names => names.map .declareGlobal
  | .nonlocalNames names => names.map .declareNonlocal
  | .expr value => value.marks
  | .pass => []
  | .stop => faultIf (p.jump ≠ .loop)
  | .next => faultIf (p.jump ≠ .loop)
termination_by structural s => s

def blockMarks (p : Place) : List Stmt → List Mark
  | [] => []
  | s :: rest => s.marks p ++ blockMarks p rest
termination_by structural body => body

def handlerMarks (p : Place) : List Handler → List Mark
  | [] => []
  | .mk type name body :: rest =>
    optionMarks type ++ name.toList.map .bind ++ p.faults ++ blockMarks p body ++
      handlerMarks p rest
termination_by structural handlers => handlers

def caseMarks (p : Place) : List Case → List Mark
  | [] => []
  | .mk pattern guard body :: rest =>
    pattern.marks (guard.isSome || rest.isEmpty) ++ optionMarks guard ++ blockMarks p body ++
      caseMarks p rest
termination_by structural cases => cases

end

/-- Whether a scope of a kind is that of a function. -/
def ScopeKind.isFunction : ScopeKind → Bool
  | .script | .classBody => false
  | _ => true

/-- Whether a scope of a kind meets a demand for itself. -/
def ScopeKind.allows (kind : ScopeKind) : Mark → Bool
  | .await => kind = .asyncFunction || kind = .comprehension
  | .yields => kind = .function || kind = .asyncFunction || kind = .lambda
  | .yieldsFrom => kind = .function || kind = .lambda
  | .asyncComprehension => kind = .asyncFunction || kind = .comprehension
  | .asyncStatement => kind = .asyncFunction
  | .returns _ => kind = .function || kind = .asyncFunction
  | .hoist name => kind ≠ .classBody && name ≠ debugName
  | .bind name | .param name | .annotate name => name ≠ debugName
  | .importAll => kind = .script
  | .declareNonlocal _ => kind ≠ .script
  | .fault => false
  | _ => true

/-- Whether a type hint is allowed. Deferred ones must not wait, yield or bind; others are held
to the demands of the scope where they are evaluated. -/
def annotationIsFine (deferred : Bool) (kind : ScopeKind) (atOnce : Bool) (marks : List Mark) :
    Bool :=
  if deferred then
    marks.all fun
      | .await | .yields | .yieldsFrom | .bind _ => false
      | _ => true
  else if atOnce || !kind.isFunction then marks.all kind.allows
  else true

/-- Whether the names of a scope are declared before they are met in other ways; `met` and
`declared` hold those of earlier marks. -/
def declarationsAreFine (kind : ScopeKind) (met declared : List String) : List Mark → Bool
  | [] => true
  | .declareGlobal name :: rest | .declareNonlocal name :: rest =>
    !met.contains name && declarationsAreFine kind met (name :: declared) rest
  | .annotate name :: rest =>
    (kind = .script || !declared.contains name) &&
      declarationsAreFine kind (name :: met) declared rest
  | .use name :: rest | .bind name :: rest | .param name :: rest =>
    declarationsAreFine kind (name :: met) declared rest
  | .hoist name :: rest =>
    declarationsAreFine kind (if kind.isFunction then name :: met else met) declared rest
  | _ :: rest => declarationsAreFine kind met declared rest

/-- The names that a scope declares as those of the script. -/
def globalsOf (marks : List Mark) : List String :=
  marks.filterMap fun
    | .declareGlobal name => some name
    | _ => none

/-- The names that a scope declares as those of a function around it. -/
def nonlocalsOf (marks : List Mark) : List String :=
  marks.filterMap fun
    | .declareNonlocal name => some name
    | _ => none

/-- The names that a scope binds for itself. -/
def localsOf (marks : List Mark) : List String :=
  let declared := globalsOf marks ++ nonlocalsOf marks
  (marks.filterMap fun
    | .bind name | .param name | .annotate name | .hoist name => some name
    | _ => none).filter fun name => !declared.contains name

def paramsOf (marks : List Mark) : List String :=
  marks.filterMap fun
    | .param name => some name
    | _ => none

/-- The names of functions that the scopes inside a scope see; `around` are those that it sees
itself. -/
def seenInside (kind : ScopeKind) (around : List String) (marks : List Mark) : List String :=
  match kind with
  | .script => []
  | .classBody => "__class__" :: around
  | _ => localsOf marks ++ around.filter fun name => !(globalsOf marks).contains name

/-- Whether a scope's own marks are allowed. -/
def ownMarksAreFine (deferred : Bool) (kind : ScopeKind) (around : List String)
    (marks : List Mark) : Bool :=
  marks.all kind.allows && declarationsAreFine kind [] [] marks && !repeats (paramsOf marks) &&
    (nonlocalsOf marks).all (fun name =>
      around.contains name && !(globalsOf marks).contains name) &&
    marks.all fun
      | .hint atOnce inner => annotationIsFine deferred kind atOnce inner
      | _ => true

mutual

/-- Whether the scopes inside a mark are allowed. -/
def Mark.innerIsFine (deferred : Bool) (around : List String) : Mark → Bool
  | .scope kind marks =>
    ownMarksAreFine deferred kind around marks &&
      innersAreFine deferred (seenInside kind around marks) marks
  | .hint _ marks => innersAreFine deferred around marks
  | _ => true
termination_by structural m => m

def innersAreFine (deferred : Bool) (around : List String) : List Mark → Bool
  | [] => true
  | m :: rest => m.innerIsFine deferred around && innersAreFine deferred around rest
termination_by structural ms => ms

end

def features : List String :=
  ["nested_scopes", "generators", "division", "absolute_import", "with_statement",
   "print_function", "unicode_literals", "barry_as_FLUFL", "generator_stop", "annotations"]

def Stmt.features? : Stmt → Option (List String)
  | .importFrom module names level =>
    if module = some futureModule && level = 0 then some (names.map (·.name)) else none
  | _ => none

/-- The features that a script chooses at its head, after descriptions, and the rest of it. -/
def chosenFeatures : List Stmt → List String × List Stmt
  | [] => ([], [])
  | s :: rest =>
    match s.features? with
    | some names => let (more, body) := chosenFeatures rest; (names ++ more, body)
    | none =>
      if s.docText?.isSome then let (more, body) := chosenFeatures rest; (more, s :: body)
      else ([], s :: rest)

/-- Whether a script can be run. -/
def isValid (body : List Stmt) : Bool :=
  let (chosen, rest) := chosenFeatures body
  chosen.all (features.contains ·) &&
    (Mark.scope .script (blockMarks {} rest)).innerIsFine (chosen.contains "annotations") []

end Workflow.Source
