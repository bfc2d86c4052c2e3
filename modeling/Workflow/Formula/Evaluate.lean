/-
The meaning of formulas: the expressions by which a workflow reads its data.

A formula is a side-effect free expression over named values. Reading past
the end of the data gives nothing: a missing key, an index out of range, and
any part of nothing. Whatever lies outside the language is refused where the
evaluation reaches it.
-/
import Workflow.Source.Tree
import Workflow.Value.Attributes
import Workflow.Value.Functions

namespace Workflow.Formula

open Source

def constantValue : Constant → Value
  | .none => .none
  | .bool b => .bool b
  | .int n => .int n
  | .float x => .float x
  | .imaginary x => .complex 0.0 x
  | .str text _ => .str text
  | .bytes data => .bytes data
  | .ellipsis => .ellipsis

/-- The value of a name: the names given come first, then the three names of literals. -/
def nameValue (names : Names) (id : String) : Outcome Value :=
  match names.lookup id with
  | some v => pure v
  | none =>
    match id with
    | "true" => pure (.bool true)
    | "false" => pure (.bool false)
    | "null" => pure .none
    | _ => throw (.undefinedName id)

def allowsBinary : BinaryOp → Bool
  | .add | .sub | .mult | .div | .floorDiv | .mod | .pow => true
  | _ => false

def allowsUnary : UnaryOp → Bool
  | .minus | .plus | .not => true
  | .invert => false

/-- Whether two expressions read one stored value: the same name, or the same part of one. -/
def samePlace : Expr → Expr → Bool
  | .name a, .name b => a = b
  | .attr e a, .attr f b => a = b && samePlace e f
  | .subscript e (.constant (.str a _)), .subscript f (.constant (.str b _)) =>
    a = b && samePlace e f
  | .subscript e (.constant (.int a)), .subscript f (.constant (.int b)) => a = b && samePlace e f
  | _, _ => false

/-- Whether equal values of a kind are always one and the same: nothing, truth values, small
integers, texts of at most one narrow character and empty tuples. -/
def isShared : Value → Bool
  | .none | .bool _ | .ellipsis => true
  | .int n => -5 ≤ n ∧ n ≤ 256
  | .str s => s.isEmpty || (s.length = 1 && s.toList.all fun c => c.toNat < 256)
  | .bytes data => data.length ≤ 1
  | .tuple items => items.isEmpty
  | _ => false

def identical (place : Bool) (a b : Value) : Bool :=
  place || (isShared a && isShared b && a.typeName = b.typeName && a.equal b)

/-- A comparison of two values; `place` when both are read from one place. -/
def comparison (op : CompareOp) (place : Bool) (a b : Value) : Outcome Bool :=
  match op with
  | .eq => pure (Value.equal a b)
  | .notEq => pure (!Value.equal a b)
  | .lt => Value.order .lt a b
  | .ltE => Value.order .le a b
  | .gt => Value.order .gt a b
  | .gtE => Value.order .ge a b
  | .is => pure (identical place a b)
  | .isNot => pure (!identical place a b)
  | .in => Value.contains b a
  | .notIn => do return !(← Value.contains b a)

/-- An attribute: a key of a dictionary, or nothing where there is none. -/
def attributeOf (v : Value) (name : String) : Value :=
  match v with
  | .dict entries => (Value.lookup (.str name) entries).getD .none
  | .none => .none
  | v => (Value.attribute? v name).getD .none

/-- A subscript, which is nothing for a missing key or an index out of range. -/
def subscriptOf (v index : Value) : Outcome Value :=
  match v with
  | .none => pure .none
  | .dict entries => do
    Value.requireKey index
    return (Value.lookup index entries).getD .none
  | v =>
    match Value.subscript v index with
    | .ok item => pure item
    | .error e => if e.kind = .missingIndex ∨ e.kind = .missingKey then pure .none else throw e

/-- The methods that a formula may call on a value. -/
def allowsMethod (v : Value) (name : String) : Bool :=
  match v with
  | .str _ =>
    ["lower", "upper", "strip", "lstrip", "rstrip", "split", "replace", "startswith", "endswith",
     "join", "title", "count", "find"].contains name
  | .list _ => ["count", "index"].contains name
  | .dict _ => ["get", "keys", "values", "items"].contains name
  | _ => false

def callMethod (target : Value) (name : String) (args : List Value) : Outcome Value :=
  if allowsMethod target name then
    (Value.method? target name args).getD (throw (.methodNotAllowed name))
  else throw (.methodNotAllowed name)

def callFunction (name : String) (args : List Value) : Outcome Value :=
  (Value.function? name args).getD (throw (.functionNotAllowed name))

/-- Whether a dictionary display unpacks another dictionary. -/
def hasSpread : List DictItem → Bool
  | [] => false
  | .spread _ :: _ => true
  | .entry .. :: rest => hasSpread rest

/-- The grammar's name of a form outside the language. -/
def formName : Expr → String
  | .named .. => "NamedExpr"
  | .lambda .. => "Lambda"
  | .comprehension .list .. => "ListComp"
  | .comprehension .set .. => "SetComp"
  | .comprehension .generator .. => "GeneratorExp"
  | .dictComprehension .. => "DictComp"
  | .await _ => "Await"
  | .yield _ => "Yield"
  | .yieldFrom _ => "YieldFrom"
  | .format _ => "JoinedStr"
  | .starred _ => "Starred"
  | _ => "Expr"

mutual

/-- The value of a formula over named values. -/
def eval (names : Names) : Expr → Outcome Value
  | .constant c => pure (constantValue c)
  | .name id => nameValue names id
  | .attr value name =>
    if name.startsWith "_" then throw (.hiddenAttribute name)
    else do return attributeOf (← eval names value) name
  | .subscript value index => do
    let v ← eval names value
    let i ← eval names index
    subscriptOf v i
  | .slice lower upper step => do
    let lower ← evalOption names lower
    let upper ← evalOption names upper
    let step ← evalOption names step
    return .slice lower upper step
  | .binary op left right =>
    if allowsBinary op then do
      let a ← eval names left
      let b ← eval names right
      Value.binary op a b
    else throw (.unsupportedOperator op.name)
  | .unary op operand =>
    if allowsUnary op then do Value.unary op (← eval names operand)
    else throw (.unsupportedOperator op.name)
  | .boolean op values => evalChain names op .none values
  | .compare first rest => do
    let left ← eval names first
    evalComparisons names first left rest
  | .choice test body orElse => do
    if (← eval names test).truthy then eval names body else eval names orElse
  | .list items => do return .list (← evalAll names items)
  | .tuple items => do return .tuple (← evalAll names items)
  | .set items => do return Value.setOf (← evalMembers names items)
  | .dict items =>
    if hasSpread items then throw .dictUnpacking
    else do return Value.dictOf (← evalEntries names items)
  | .call function args keywords =>
    if keywords.isEmpty then do
      let args ← evalAll names args
      match function with
      | .name id => callFunction id args
      | .attr target name => do
        let target ← eval names target
        callMethod target name args
      | _ => throw .unsupportedCall
    else throw .keywordArguments
  | e => throw (.unsupportedSyntax (formName e))
termination_by structural e => e

def evalAll (names : Names) : List Expr → Outcome (List Value)
  | [] => pure []
  | e :: rest => do
    let v ← eval names e
    return v :: (← evalAll names rest)
termination_by structural es => es

/-- The members of a set, each of which must be a key before the next is computed. -/
def evalMembers (names : Names) : List Expr → Outcome (List Value)
  | [] => pure []
  | e :: rest => do
    let v ← eval names e
    Value.requireKey v
    return v :: (← evalMembers names rest)
termination_by structural es => es

/-- The entries of a dictionary, of which each key is checked after its value is computed. -/
def evalEntries (names : Names) : List DictItem → Outcome (List (Value × Value))
  | [] => pure []
  | .entry key value :: rest => do
    let k ← eval names key
    let v ← eval names value
    Value.requireKey k
    return (k, v) :: (← evalEntries names rest)
  | .spread _ :: _ => throw .dictUnpacking
termination_by structural items => items

/-- A part of a slice; nothing when it is left out. -/
def evalOption (names : Names) : Option Expr → Outcome Value
  | none => pure .none
  | some e => eval names e
termination_by structural e => e

/-- The operand that decides a chain of one connective: the first false one of a conjunction, the
first true one of an alternative, or the last. -/
def evalChain (names : Names) (op : BoolOp) (last : Value) : List Expr → Outcome Value
  | [] => pure last
  | e :: rest => do
    let v ← eval names e
    let decides := match op with
      | .and => !v.truthy
      | .or => v.truthy
    if decides then return v else evalChain names op v rest
termination_by structural es => es

/-- Whether every comparison of a chain holds; the first that does not ends the evaluation. -/
def evalComparisons (names : Names) (leftExpr : Expr) (left : Value) :
    List Comparison → Outcome Value
  | [] => pure (.bool true)
  | .mk op right :: rest => do
    let v ← eval names right
    if ← comparison op (samePlace leftExpr right) left v then evalComparisons names right v rest
    else return .bool false
termination_by structural rest => rest

end

end Workflow.Formula
