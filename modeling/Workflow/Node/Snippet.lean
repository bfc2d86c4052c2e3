/-
Running small scripts: the snippets that users write, and the modules of node
kinds.

A script here computes with values and calls the functions that it is given.
Unlike in a formula, a missing key, attribute or name is an error, and printing
is recorded.
-/
import Workflow.Execution.Raised
import Workflow.Formula.Evaluate
import Workflow.Table

namespace Workflow.Snippet

open Source

/-- What a script can see and has done. -/
structure Scope where
  names : Names
  /-- The families of errors that a script may raise, by name. -/
  errors : List (String × ErrorKind)
  /-- The lines that were printed. -/
  printed : List String := []
  deriving Inhabited

/-- A part of a script's run. What was printed before an error stays. -/
abbrev Script := ExceptT Raised (StateM Scope)

/-- A computation on values as a part of a script's run. -/
def ofOutcome {α : Type} : Outcome α → Script α
  | .ok a => pure a
  | .error f => throw (.ofFault f)

/-- The families of errors that every script may raise. -/
def commonErrors : List (String × ErrorKind) := [
  ("ValueError", .fault .badValue), ("TypeError", .fault .typeMismatch),
  ("KeyError", .fault .missingKey), ("IndexError", .fault .missingIndex),
  ("AttributeError", .fault .missingAttribute), ("NameError", .fault .missingName),
  ("ZeroDivisionError", .fault .zeroDivision), ("OverflowError", .fault .overflow),
  ("LookupError", .fault .missingCodec), ("RuntimeError", .runtime), ("TimeoutError", .timeout)]

/-- The functions that every script may call. -/
def commonFunctions : List String :=
  ["len", "str", "int", "float", "bool", "round", "abs", "min", "max", "sum", "sorted", "list"]

def functionValue : Value := .object "function"

def nameValue (id : String) : Script Value := do
  let scope ← get
  match scope.names.lookup id with
  | some v => return v
  | none =>
    if (scope.errors.lookup id).isSome then return .object "type"
    else if commonFunctions.contains id then return .object "builtin_function_or_method"
    else throw (.ofFault (.unboundName id))

def print (args : List Value) : Script Unit := do
  let texts ← args.mapM fun v => ofOutcome v.shown
  modify fun s => { s with printed := s.printed ++ [" ".intercalate texts] }

def attributeOf (v : Value) (name : String) : Outcome Value :=
  match Value.attribute? v name with
  | some part => pure part
  | none => throw (.absentAttribute v.typeName name)

def callMethod (v : Value) (name : String) (args : List Value) : Outcome Value :=
  match Value.method? v name args with
  | some outcome => outcome
  | none => do throw (.notCallable (← attributeOf v name).typeName)

def callNamed (id : String) (args : List Value) (keywords : List Keyword) : Script Value := do
  let v ← nameValue id
  let bound := ((← get).names.lookup id).isSome
  match bound, keywords with
  | true, [] =>
    if id = "print" then
      print args
      return .none
    else throw (.ofFault (.notCallable v.typeName))
  | true, .mk name _ :: _ =>
    if id = "print" then
      throw { kind := .fault .typeMismatch
              message := "execute.<locals>.capture() got an unexpected keyword argument '" ++
                name.getD "" ++ "'" }
    else throw (.ofFault (.notCallable v.typeName))
  | false, _ => ofOutcome ((Value.function? id args).getD (throw (.notCallable v.typeName)))

/-- A value that is put into a text. -/
def converted : Option Conversion → Value → Outcome String
  | none, v => v.shown
  | some .text, v => v.shown
  | some .literal, v => v.spelled
  | some .ascii, v => do return Value.asciiOnly (← v.spelled)

mutual

def eval : Expr → Script Value
  | .constant c => return Formula.constantValue c
  | .name id => nameValue id
  | .attr value name => do ofOutcome (attributeOf (← eval value) name)
  | .subscript value index => do
    let v ← eval value
    let i ← eval index
    ofOutcome (Value.subscript v i)
  | .slice lower upper step => do
    let lower ← evalOption lower
    let upper ← evalOption upper
    let step ← evalOption step
    return .slice lower upper step
  | .binary op left right => do
    let a ← eval left
    let b ← eval right
    ofOutcome (Value.binary op a b)
  | .unary op operand => do ofOutcome (Value.unary op (← eval operand))
  | .boolean op values => evalChain op .none values
  | .compare first rest => do
    let left ← eval first
    evalComparisons first left rest
  | .choice test body orElse => do
    if (← eval test).truthy then eval body else eval orElse
  | .list items => do return .list (← evalAll items)
  | .tuple items => do return .tuple (← evalAll items)
  | .set items => do
    let members ← evalAll items
    members.forM fun v => ofOutcome (Value.requireKey v)
    return Value.setOf members
  | .dict items => do return Value.dictOf (← evalEntries items)
  | .format pieces => do return .str (String.join (← evalPieces pieces))
  | .call (.name id) args keywords => do
    let args ← evalAll args
    callNamed id args keywords
  | .call (.attr target name) args _ => do
    let target ← eval target
    let args ← evalAll args
    ofOutcome (callMethod target name args)
  | .call function _ _ => do throw (.ofFault (.notCallable (← eval function).typeName))
  | e => throw (.ofFault (.unsupportedSyntax (Formula.formName e)))
termination_by structural e => e

/-- The values of several expressions, from left to right, with those that are starred unpacked. -/
def evalAll : List Expr → Script (List Value)
  | [] => return []
  | .starred value :: rest => do
    let items ← ofOutcome (← eval value).iterate
    return items ++ (← evalAll rest)
  | e :: rest => do
    let v ← eval e
    return v :: (← evalAll rest)
termination_by structural es => es

def evalEntries : List DictItem → Script (List (Value × Value))
  | [] => return []
  | .entry key value :: rest => do
    let k ← eval key
    let v ← eval value
    ofOutcome (Value.requireKey k)
    return (k, v) :: (← evalEntries rest)
  | .spread mapping :: rest => do
    match ← eval mapping with
    | .dict entries => return entries ++ (← evalEntries rest)
    | v => throw { kind := .fault .typeMismatch, message := "'" ++ v.typeName ++ "' object is not a mapping" }
termination_by structural items => items

def evalOption : Option Expr → Script Value
  | none => return .none
  | some e => eval e
termination_by structural e => e

/-- The operand that decides a chain of one connective. -/
def evalChain (op : BoolOp) (last : Value) : List Expr → Script Value
  | [] => return last
  | e :: rest => do
    let v ← eval e
    let decides := match op with
      | .and => !v.truthy
      | .or => v.truthy
    if decides then return v else evalChain op v rest
termination_by structural es => es

/-- Whether every comparison of a chain holds. -/
def evalComparisons (leftExpr : Expr) (left : Value) : List Comparison → Script Value
  | [] => return .bool true
  | .mk op right :: rest => do
    let v ← eval right
    if ← ofOutcome (Formula.comparison op (Formula.samePlace leftExpr right) left v) then
      evalComparisons right v rest
    else return .bool false
termination_by structural rest => rest

/-- The texts of the pieces of a formatted text. -/
def evalPieces : List Piece → Script (List String)
  | [] => return []
  | .text content :: rest => do return content :: (← evalPieces rest)
  | .value value conversion _ :: rest => do
    let v ← eval value
    let text ← ofOutcome (converted conversion v)
    return text :: (← evalPieces rest)
termination_by structural pieces => pieces

end

/-- The error that a statement raises: a family by its name, with or without values. -/
def raisedBy : Expr → Script Raised
  | .call (.name id) args _ => do
    match (← get).errors.lookup id with
    | some kind => return .ofArguments kind (← evalAll args)
    | none => do
      let _ ← callNamed id (← evalAll args) []
      return notAnError
  | .name id => do
    match (← get).errors.lookup id with
    | some kind => return .ofArguments kind []
    | none => do
      let _ ← nameValue id
      return notAnError
  | e => do
    let _ ← eval e
    return notAnError
where
  /-- The error of raising what is no error. -/
  notAnError : Raised :=
    { kind := .fault .typeMismatch, message := "exceptions must derive from BaseException" }

mutual

/-- Runs a statement; a value when it returns one. -/
def runStmt : Stmt → Script (Option Value)
  | .ret value => do return some (← evalOption value)
  | .expr e => do
    let _ ← eval e
    return none
  | .raise (some e) _ => do throw (← raisedBy e)
  | .branch test body orElse => do
    if (← eval test).truthy then runBlock body else runBlock orElse
  | .assign [.name id] value => do
    let v ← eval value
    modify fun s => { s with names := putEntry id v s.names }
    return none
  | .annotate (.name id) _ (some value) _ => do
    let v ← eval value
    modify fun s => { s with names := putEntry id v s.names }
    return none
  | _ => return none
termination_by structural s => s

/-- Runs statements up to the first that returns. -/
def runBlock : List Stmt → Script (Option Value)
  | [] => return none
  | s :: rest => do
    match ← runStmt s with
    | some v => return some v
    | none => runBlock rest
termination_by structural body => body

end

/-- A function of a script: its parameters and its body. -/
structure Function where
  params : Params
  body : List Stmt

/-- The function that a script defines last under a name. -/
def function? (name : String) (body : List Stmt) : Option Function :=
  body.foldl (fun found s => match s with
    | .function _ id params _ _ body => if id = name then some ⟨params, body⟩ else found
    | _ => found) none

def paramName : Param → String
  | .mk name _ _ => name

def paramDefault : Param → Option Expr
  | .mk _ _ fallback => fallback

def tooMany (function : String) (least most given : Nat) : Raised :=
  if least = most then .ofFault (.tooManyArguments function most given)
  else
    { kind := .fault .typeMismatch
      message := function ++ "() takes from " ++ Number.natText least ++ " to " ++ Number.natText most ++
        " positional arguments but " ++ Number.natText given ++
        (if given = 1 then " was given" else " were given") }

/-- Binds the arguments of a call to parameters, by position. -/
def bindArguments (function : String) (params : Params) (args : List Value) : Script Names := do
  match params with
  | .mk positional regular rest named others =>
    let places := positional ++ regular
    let given := (places.map paramName).zip args
    let left := places.drop args.length
    let missing := (left.filter fun p => (paramDefault p).isNone).map paramName
    let extra := args.drop places.length
    let least := (places.filter fun p => (paramDefault p).isNone).length
    if !extra.isEmpty && rest.isNone then throw (tooMany function least places.length args.length)
    if !missing.isEmpty then throw (.ofFault (.missingArguments function missing))
    let defaults ← (left ++ named).mapM fun p => do return (paramName p, ← evalOption (paramDefault p))
    return given ++ defaults ++ (rest.map fun p => (paramName p, Value.tuple extra)).toList ++
      (others.map fun p => (paramName p, Value.dict [])).toList

def Function.call (f : Function) (name : String) (args : List Value) : Script Value := do
  let bound ← bindArguments name f.params args
  modify fun s => { s with names := bound ++ s.names }
  return (← runBlock f.body).getD .none

end Workflow.Snippet
