/-
The names that a script mentions, and those that it binds at its top level.

A mention is an occurrence as an expression, whether read or bound; names of
parameters, attributes, imports and handlers are none.
-/
import Workflow.Source.Tree

namespace Workflow.Source

mutual

/-- The names that an expression mentions. -/
def Expr.names : Expr → List String
  | .constant _ => []
  | .name id => [id]
  | .named target value => target :: value.names
  | .boolean _ values => exprNames values
  | .binary _ left right => left.names ++ right.names
  | .unary _ operand => operand.names
  | .lambda params body => paramsNames params ++ body.names
  | .choice test body orElse => test.names ++ body.names ++ orElse.names
  | .dict items => dictItemNames items
  | .set items => exprNames items
  | .list items => exprNames items
  | .tuple items => exprNames items
  | .comprehension _ element clauses => element.names ++ clauseNames clauses
  | .dictComprehension key value clauses => key.names ++ value.names ++ clauseNames clauses
  | .await value => value.names
  | .yield value => optionNames value
  | .yieldFrom value => value.names
  | .compare first rest => first.names ++ comparisonNames rest
  | .call function args keywords => function.names ++ exprNames args ++ keywordNames keywords
  | .format pieces => pieceNames pieces
  | .attr value _ => value.names
  | .subscript value index => value.names ++ index.names
  | .starred value => value.names
  | .slice lower upper step => optionNames lower ++ optionNames upper ++ optionNames step
termination_by structural e => e

def exprNames : List Expr → List String
  | [] => []
  | e :: rest => e.names ++ exprNames rest
termination_by structural es => es

def optionNames : Option Expr → List String
  | none => []
  | some e => e.names
termination_by structural e => e

def dictItemNames : List DictItem → List String
  | [] => []
  | .entry key value :: rest => key.names ++ value.names ++ dictItemNames rest
  | .spread mapping :: rest => mapping.names ++ dictItemNames rest
termination_by structural items => items

def clauseNames : List Clause → List String
  | [] => []
  | .mk _ target iter conditions :: rest =>
    target.names ++ iter.names ++ exprNames conditions ++ clauseNames rest
termination_by structural clauses => clauses

def comparisonNames : List Comparison → List String
  | [] => []
  | .mk _ right :: rest => right.names ++ comparisonNames rest
termination_by structural rest => rest

def keywordNames : List Keyword → List String
  | [] => []
  | .mk _ value :: rest => value.names ++ keywordNames rest
termination_by structural keywords => keywords

def pieceNames : List Piece → List String
  | [] => []
  | .text _ :: rest => pieceNames rest
  | .value value _ spec :: rest => value.names ++ specNames spec ++ pieceNames rest
termination_by structural pieces => pieces

def specNames : Option (List Piece) → List String
  | none => []
  | some pieces => pieceNames pieces
termination_by structural spec => spec

def paramNames : Param → List String
  | .mk _ hint fallback => optionNames hint ++ optionNames fallback
termination_by structural p => p

def paramListNames : List Param → List String
  | [] => []
  | p :: rest => paramNames p ++ paramListNames rest
termination_by structural ps => ps

def optionParamNames : Option Param → List String
  | none => []
  | some p => paramNames p
termination_by structural p => p

def paramsNames : Params → List String
  | .mk positional regular rest named others =>
    paramListNames positional ++ paramListNames regular ++ optionParamNames rest ++
      paramListNames named ++ optionParamNames others
termination_by structural ps => ps

end

mutual

/-- The names that a pattern mentions in its values. -/
def Pattern.names : Pattern → List String
  | .value expr => expr.names
  | .singleton _ => []
  | .sequence items => patternNames items
  | .star _ => []
  | .mapping entries _ => entryPatternNames entries
  | .instanceOf type items named => type.names ++ patternNames items ++ namedPatternNames named
  | .capture pattern _ => pattern.names
  | .bind _ => []
  | .wildcard => []
  | .either options => patternNames options
termination_by structural p => p

def patternNames : List Pattern → List String
  | [] => []
  | p :: rest => p.names ++ patternNames rest
termination_by structural ps => ps

def entryPatternNames : List (Expr × Pattern) → List String
  | [] => []
  | (key, p) :: rest => key.names ++ p.names ++ entryPatternNames rest
termination_by structural ps => ps

def namedPatternNames : List (String × Pattern) → List String
  | [] => []
  | (_, p) :: rest => p.names ++ namedPatternNames rest
termination_by structural ps => ps

end

def WithItem.names (item : WithItem) : List String := item.context.names ++ optionNames item.target

mutual

/-- The names that a statement mentions. -/
def Stmt.names : Stmt → List String
  | .function _ _ params returns decorators body =>
    exprNames decorators ++ paramsNames params ++ optionNames returns ++ blockNames body
  | .classDef _ bases keywords decorators body =>
    exprNames decorators ++ exprNames bases ++ keywordNames keywords ++ blockNames body
  | .ret value => optionNames value
  | .delete targets => exprNames targets
  | .assign targets value => exprNames targets ++ value.names
  | .augment target _ value => target.names ++ value.names
  | .annotate target hint value _ => target.names ++ hint.names ++ optionNames value
  | .forEach _ target iter body orElse =>
    target.names ++ iter.names ++ blockNames body ++ blockNames orElse
  | .loop test body orElse => test.names ++ blockNames body ++ blockNames orElse
  | .branch test body orElse => test.names ++ blockNames body ++ blockNames orElse
  | .using _ items body => items.flatMap (·.names) ++ blockNames body
  | .select subject cases => subject.names ++ caseNames cases
  | .raise error cause => optionNames error ++ optionNames cause
  | .attempt _ body handlers orElse ensure =>
    blockNames body ++ handlerNames handlers ++ blockNames orElse ++ blockNames ensure
  | .assertion test message => test.names ++ optionNames message
  | .importNames _ => []
  | .importFrom .. => []
  | .globalNames _ => []
  | .nonlocalNames _ => []
  | .expr value => value.names
  | .pass => []
  | .stop => []
  | .next => []
termination_by structural s => s

def blockNames : List Stmt → List String
  | [] => []
  | s :: rest => s.names ++ blockNames rest
termination_by structural body => body

def handlerNames : List Handler → List String
  | [] => []
  | .mk type _ body :: rest => optionNames type ++ blockNames body ++ handlerNames rest
termination_by structural handlers => handlers

def caseNames : List Case → List String
  | [] => []
  | .mk pattern guard body :: rest =>
    pattern.names ++ optionNames guard ++ blockNames body ++ caseNames rest
termination_by structural cases => cases

end

/-- The part of a dotted name before its first dot. -/
def firstPart (dotted : String) : String := String.ofList (dotted.toList.takeWhile (· ≠ '.'))

/-- The name under which an import is known. -/
def Alias.boundName (a : Alias) : String := firstPart (a.given.getD a.name)

/-- The names that a statement of the top level binds: a definition its name, an assignment the
names in its targets, an import those that it gives. -/
def Stmt.boundNames : Stmt → List String
  | .function _ name .. => [name]
  | .classDef name .. => [name]
  | .assign targets _ => exprNames targets
  | .augment target .. => target.names
  | .annotate target .. => target.names
  | .importNames names => names.map (·.boundName)
  | .importFrom _ names _ => names.map (·.boundName)
  | _ => []

def boundNames (body : List Stmt) : List String := body.flatMap (·.boundNames)

/-- Names without repetition, in increasing order. -/
def sortedNames (names : List String) : List String :=
  (names.eraseDups).mergeSort fun a b => a ≤ b

end Workflow.Source
