/-
The syntax trees of scripts: expressions, patterns and statements of the
language in which handlers are written.

Every part of a tree that another part may hold is a type of its own, so that
a function on trees is a family of functions by recursion on the parts.
-/
import Workflow.Source.Operator

namespace Workflow.Source

/-- A literal. Numbers carry no sign: a sign is an operator. -/
inductive Constant where
  | none
  | bool (b : Bool)
  | int (n : Nat)
  | float (x : Float)
  | imaginary (x : Float)
  /-- A text; `marked` when its first piece is written with a leading `u`. -/
  | str (text : String) (marked : Bool)
  | bytes (data : List UInt8)
  | ellipsis
  deriving Inhabited

/-- How a formatted value is turned into text before its format applies. -/
inductive Conversion where
  | text
  | literal
  | ascii
  deriving Repr, DecidableEq, Inhabited

def Conversion.letter : Conversion → Char
  | text => 's'
  | literal => 'r'
  | ascii => 'a'

/-- What a comprehension with one element builds. -/
inductive ComprehensionKind where
  | list
  | set
  | generator
  deriving Repr, DecidableEq, Inhabited

mutual

inductive Expr where
  | constant (value : Constant)
  | name (id : String)
  /-- `target := value` -/
  | named (target : String) (value : Expr)
  | boolean (op : BoolOp) (values : List Expr)
  | binary (op : BinaryOp) (left right : Expr)
  | unary (op : UnaryOp) (operand : Expr)
  | lambda (params : Params) (body : Expr)
  /-- `body if test else orElse` -/
  | choice (test body orElse : Expr)
  | dict (items : List DictItem)
  | set (items : List Expr)
  | list (items : List Expr)
  | tuple (items : List Expr)
  | comprehension (kind : ComprehensionKind) (element : Expr) (clauses : List Clause)
  | dictComprehension (key value : Expr) (clauses : List Clause)
  | await (value : Expr)
  | yield (value : Option Expr)
  | yieldFrom (value : Expr)
  | compare (first : Expr) (rest : List Comparison)
  | call (function : Expr) (args : List Expr) (keywords : List Keyword)
  | format (pieces : List Piece)
  | attr (value : Expr) (name : String)
  | subscript (value index : Expr)
  | starred (value : Expr)
  | slice (lower upper step : Option Expr)

/-- A part of a dictionary display. -/
inductive DictItem where
  | entry (key value : Expr)
  /-- `**mapping` -/
  | spread (mapping : Expr)

/-- A `for` of a comprehension with its conditions. -/
inductive Clause where
  | mk (isAsync : Bool) (target iter : Expr) (conditions : List Expr)

/-- A comparison's operator with its right side. -/
inductive Comparison where
  | mk (op : CompareOp) (right : Expr)

/-- A named argument, or `**value` when it has no name. -/
inductive Keyword where
  | mk (name : Option String) (value : Expr)

inductive Piece where
  | text (content : String)
  | value (value : Expr) (conversion : Option Conversion) (spec : Option (List Piece))

/-- A parameter with its type hint and default. -/
inductive Param where
  | mk (name : String) (hint fallback : Option Expr)

/-- The parameters of a function: those given by position only, those given either way, the one
that collects further positions, those given by name only, and the one that collects further
names. -/
inductive Params where
  | mk (positional regular : List Param) (rest : Option Param) (named : List Param)
      (others : Option Param)

end

instance : Inhabited Expr := ⟨.constant .none⟩

def Expr.isStarred : Expr → Bool
  | .starred _ => true
  | _ => false

/-- A pattern of a `case`. -/
inductive Pattern where
  | value (expr : Expr)
  | singleton (value : Constant)
  | sequence (items : List Pattern)
  /-- `*name`, or `*_` without one -/
  | star (name : Option String)
  | mapping (entries : List (Expr × Pattern)) (rest : Option String)
  | instanceOf (type : Expr) (items : List Pattern) (named : List (String × Pattern))
  | capture (pattern : Pattern) (name : String)
  | bind (name : String)
  | wildcard
  | either (options : List Pattern)
  deriving Inhabited

def Pattern.isStar : Pattern → Bool
  | .star _ => true
  | _ => false

/-- A name of an import, with the name that it is given. -/
structure Alias where
  name : String
  given : Option String
  deriving Repr, DecidableEq, Inhabited

/-- A context manager of a `with`, and what its value is bound to. -/
structure WithItem where
  context : Expr
  target : Option Expr
  deriving Inhabited

mutual

inductive Stmt where
  | function (isAsync : Bool) (name : String) (params : Params) (returns : Option Expr)
      (decorators : List Expr) (body : List Stmt)
  | classDef (name : String) (bases : List Expr) (keywords : List Keyword)
      (decorators : List Expr) (body : List Stmt)
  | ret (value : Option Expr)
  | delete (targets : List Expr)
  | assign (targets : List Expr) (value : Expr)
  | augment (target : Expr) (op : BinaryOp) (value : Expr)
  /-- `target: hint = value`; `simple` when the target is a bare name -/
  | annotate (target hint : Expr) (value : Option Expr) (simple : Bool)
  | forEach (isAsync : Bool) (target iter : Expr) (body orElse : List Stmt)
  | loop (test : Expr) (body orElse : List Stmt)
  | branch (test : Expr) (body orElse : List Stmt)
  | using (isAsync : Bool) (items : List WithItem) (body : List Stmt)
  | select (subject : Expr) (cases : List Case)
  | raise (error cause : Option Expr)
  | attempt (group : Bool) (body : List Stmt) (handlers : List Handler)
      (orElse ensure : List Stmt)
  | assertion (test : Expr) (message : Option Expr)
  | importNames (names : List Alias)
  | importFrom (module : Option String) (names : List Alias) (level : Nat)
  | globalNames (names : List String)
  | nonlocalNames (names : List String)
  | expr (value : Expr)
  | pass
  | stop
  | next

inductive Handler where
  | mk (type : Option Expr) (name : Option String) (body : List Stmt)

inductive Case where
  | mk (pattern : Pattern) (guard : Option Expr) (body : List Stmt)

end

instance : Inhabited Stmt := ⟨.pass⟩

/-- The text of a statement that is only a text: a description of what it opens. -/
def Stmt.docText? : Stmt → Option (String × Bool)
  | .expr (.constant (.str text marked)) => some (text, marked)
  | _ => none

/-- Whether a statement defines a function or class, and its name. -/
def Stmt.definedName? : Stmt → Option String
  | .function _ name .. => some name
  | .classDef name .. => some name
  | _ => none

end Workflow.Source
