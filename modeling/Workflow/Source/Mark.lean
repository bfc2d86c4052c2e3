/-
What the parts of a script demand of the scope that they stand in: the names
that they use, bind and declare, and what is allowed only in certain scopes,
such as waiting or yielding.
-/
import Workflow.Source.Tree

namespace Workflow.Source

/-- The kinds of scopes. -/
inductive ScopeKind where
  | script
  | classBody
  | function
  | asyncFunction
  | lambda
  | comprehension
  deriving Repr, DecidableEq, Inhabited

/-- What a part of a script demands of its scope. -/
inductive Mark where
  | use (name : String)
  | bind (name : String)
  /-- A binding inside a comprehension, which belongs to the scope around it. -/
  | hoist (name : String)
  | param (name : String)
  | annotate (name : String)
  | declareGlobal (name : String)
  | declareNonlocal (name : String)
  | importAll
  | await
  | yields
  | yieldsFrom
  /-- A comprehension that waits and is no generator. -/
  | asyncComprehension
  /-- A loop or a `with` that waits. -/
  | asyncStatement
  | returns (valued : Bool)
  /-- A type hint; it is evaluated at once, or only outside of functions. -/
  | hint (atOnce : Bool) (marks : List Mark)
  | scope (kind : ScopeKind) (marks : List Mark)
  /-- Something that is allowed nowhere. -/
  | fault
  deriving Inhabited

/-- The name that cannot be bound. -/
def debugName : String := "__debug__"

/-- A fault, if something is wrong. -/
def faultIf (wrong : Bool) : List Mark := if wrong then [.fault] else []

def repeats (names : List String) : Bool := names.eraseDups.length ≠ names.length

def keywordIds (keywords : List Keyword) : List String :=
  keywords.filterMap fun
    | .mk name _ => name

/-- The faults of named arguments: one that is repeated, or that cannot be bound. -/
def keywordFaults (keywords : List Keyword) : List Mark :=
  let ids := keywordIds keywords
  faultIf (repeats ids || ids.contains debugName)

/-- The faults of a list of targets: more than one star, or a star behind too many targets. -/
def starFaults (items : List Expr) : List Mark :=
  let starred := items.filter Expr.isStarred
  faultIf (1 < starred.length ||
    (starred.length = 1 && 255 < (items.takeWhile fun e => !e.isStarred).length))

/-- The names of parameters, in the order in which they are bound. -/
def Params.ids : Params → List String
  | .mk positional regular rest named others =>
    let id : Param → String := fun
      | .mk name .. => name
    positional.map id ++ regular.map id ++ named.map id ++ rest.toList.map id ++ others.toList.map id

/-- Whether a comprehension with these marks waits. -/
def waits (marks : List Mark) : Bool :=
  marks.any fun
    | .await | .asyncComprehension => true
    | _ => false

/-- The names that bindings inside a comprehension hand to the scope around it. -/
def hoistedNames (marks : List Mark) : List String :=
  marks.filterMap fun
    | .bind name | .hoist name => some name
    | _ => none

/-- The marks of a comprehension: of the first thing that it runs over, which stands outside of
it, and of the rest, in which `targets` are the names that it binds itself. -/
def comprehensionMarks (isGenerator isAsync : Bool) (first : List Mark) (targets : List Mark)
    (rest : List Mark) : List Mark :=
  let own := hoistedNames targets
  let hoisted := hoistedNames rest
  first ++ faultIf (!(hoistedNames first).isEmpty) ++ faultIf (hoisted.any (· ∈ own)) ++
    [.scope .comprehension (targets ++ rest)] ++ hoisted.map .hoist ++
    (if !isGenerator && (isAsync || waits (targets ++ rest)) then [.asyncComprehension] else [])

def Clause.isAsync : Clause → Bool
  | .mk isAsync .. => isAsync

mutual

/-- The marks of an expression whose value is used. -/
def Expr.marks : Expr → List Mark
  | .constant _ => []
  | .name id => [.use id]
  | .named target value => value.marks ++ [.bind target]
  | .boolean _ values => exprMarks values
  | .binary _ left right => left.marks ++ right.marks
  | .unary _ operand => operand.marks
  | .lambda params body =>
    paramsMarks params ++ [.scope .lambda (params.ids.map .param ++ body.marks)]
  | .choice test body orElse => test.marks ++ body.marks ++ orElse.marks
  | .dict items => dictItemMarks items
  | .set items => starMarks items
  | .list items => starMarks items
  | .tuple items => starMarks items
  | .comprehension kind element clauses =>
    comprehensionMarks (kind = .generator) (clauses.any Clause.isAsync) (firstMarks clauses)
      (targetsMarks clauses) (clauseMarks true clauses ++ element.marks)
  | .dictComprehension key value clauses =>
    comprehensionMarks false (clauses.any Clause.isAsync) (firstMarks clauses)
      (targetsMarks clauses) (clauseMarks true clauses ++ value.marks ++ key.marks)
  | .await value => value.marks ++ [.await]
  | .yield value => optionMarks value ++ [.yields]
  | .yieldFrom value => value.marks ++ [.yieldsFrom]
  | .compare first rest => first.marks ++ comparisonMarks rest
  | .call function args keywords =>
    function.marks ++ starMarks args ++ keywordMarks keywords ++ keywordFaults keywords
  | .format pieces => pieceMarks pieces
  | .attr value _ => value.marks
  | .subscript value index => value.marks ++ index.marks
  | .starred value => .fault :: value.marks
  | .slice lower upper step => optionMarks lower ++ optionMarks upper ++ optionMarks step
termination_by structural e => e

def exprMarks : List Expr → List Mark
  | [] => []
  | e :: rest => e.marks ++ exprMarks rest
termination_by structural es => es

def starMarks : List Expr → List Mark
  | [] => []
  | .starred e :: rest => e.marks ++ starMarks rest
  | e :: rest => e.marks ++ starMarks rest
termination_by structural es => es

def optionMarks : Option Expr → List Mark
  | none => []
  | some e => e.marks
termination_by structural e => e

def dictItemMarks : List DictItem → List Mark
  | [] => []
  | .entry key value :: rest => key.marks ++ value.marks ++ dictItemMarks rest
  | .spread mapping :: rest => mapping.marks ++ dictItemMarks rest
termination_by structural items => items

/-- The marks of what the first clause of a comprehension runs over. -/
def firstMarks : List Clause → List Mark
  | [] => []
  | .mk _ _ iter _ :: _ => iter.marks
termination_by structural clauses => clauses

def targetsMarks : List Clause → List Mark
  | [] => []
  | .mk _ target _ _ :: rest => target.targetMarks ++ targetsMarks rest
termination_by structural clauses => clauses

/-- The marks of clauses besides their targets, and besides what the first runs over. What the
others run over binds no names. -/
def clauseMarks (isFirst : Bool) : List Clause → List Mark
  | [] => []
  | .mk _ _ iter conditions :: rest =>
    (if isFirst then []
      else iter.marks ++ faultIf (!(hoistedNames iter.marks).isEmpty)) ++
      exprMarks conditions ++ clauseMarks false rest
termination_by structural clauses => clauses

def comparisonMarks : List Comparison → List Mark
  | [] => []
  | .mk _ right :: rest => right.marks ++ comparisonMarks rest
termination_by structural rest => rest

def keywordMarks : List Keyword → List Mark
  | [] => []
  | .mk _ value :: rest => value.marks ++ keywordMarks rest
termination_by structural keywords => keywords

def pieceMarks : List Piece → List Mark
  | [] => []
  | .text _ :: rest => pieceMarks rest
  | .value value _ spec :: rest => value.marks ++ specMarks spec ++ pieceMarks rest
termination_by structural pieces => pieces

def specMarks : Option (List Piece) → List Mark
  | none => []
  | some pieces => pieceMarks pieces
termination_by structural spec => spec

def paramMarks : Param → List Mark
  | .mk _ hint fallback =>
    optionMarks fallback ++ [.hint true (annotationMarks hint)]
termination_by structural p => p

/-- The marks of a type hint, which may be starred. -/
def annotationMarks : Option Expr → List Mark
  | none => []
  | some (.starred e) => e.marks
  | some e => e.marks
termination_by structural e => e

def paramListMarks : List Param → List Mark
  | [] => []
  | p :: rest => paramMarks p ++ paramListMarks rest
termination_by structural ps => ps

def optionParamMarks : Option Param → List Mark
  | none => []
  | some p => paramMarks p
termination_by structural p => p

def paramsMarks : Params → List Mark
  | .mk positional regular rest named others =>
    paramListMarks positional ++ paramListMarks regular ++ optionParamMarks rest ++
      paramListMarks named ++ optionParamMarks others
termination_by structural ps => ps

/-- The marks of an expression that something is assigned to. -/
def Expr.targetMarks : Expr → List Mark
  | .name id => [.bind id]
  | .attr value name => value.marks ++ faultIf (name = debugName)
  | .subscript value index => value.marks ++ index.marks
  | .tuple items => starFaults items ++ targetListMarks items
  | .list items => starFaults items ++ targetListMarks items
  | _ => [.fault]
termination_by structural e => e

def targetListMarks : List Expr → List Mark
  | [] => []
  | .starred e :: rest => e.targetMarks ++ targetListMarks rest
  | e :: rest => e.targetMarks ++ targetListMarks rest
termination_by structural es => es

end

end Workflow.Source
