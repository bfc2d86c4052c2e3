/-
The operators of the expression grammar, with their signs and the names that
messages use for them.
-/

namespace Workflow.Source

inductive BinaryOp where
  | add
  | sub
  | mult
  | matMult
  | div
  | mod
  | pow
  | leftShift
  | rightShift
  | bitOr
  | bitXor
  | bitAnd
  | floorDiv
  deriving Repr, DecidableEq, Inhabited

def BinaryOp.sign : BinaryOp → String
  | add => "+"
  | sub => "-"
  | mult => "*"
  | matMult => "@"
  | div => "/"
  | mod => "%"
  | pow => "**"
  | leftShift => "<<"
  | rightShift => ">>"
  | bitOr => "|"
  | bitXor => "^"
  | bitAnd => "&"
  | floorDiv => "//"

/-- The grammar's name of a binary operator. -/
def BinaryOp.name : BinaryOp → String
  | add => "Add"
  | sub => "Sub"
  | mult => "Mult"
  | matMult => "MatMult"
  | div => "Div"
  | mod => "Mod"
  | pow => "Pow"
  | leftShift => "LShift"
  | rightShift => "RShift"
  | bitOr => "BitOr"
  | bitXor => "BitXor"
  | bitAnd => "BitAnd"
  | floorDiv => "FloorDiv"

inductive UnaryOp where
  | invert
  | not
  | plus
  | minus
  deriving Repr, DecidableEq, Inhabited

def UnaryOp.sign : UnaryOp → String
  | invert => "~"
  | not => "not"
  | plus => "+"
  | minus => "-"

/-- The grammar's name of a unary operator. -/
def UnaryOp.name : UnaryOp → String
  | invert => "Invert"
  | not => "Not"
  | plus => "UAdd"
  | minus => "USub"

inductive BoolOp where
  | and
  | or
  deriving Repr, DecidableEq, Inhabited

def BoolOp.sign : BoolOp → String
  | and => "and"
  | or => "or"

inductive CompareOp where
  | eq
  | notEq
  | lt
  | ltE
  | gt
  | gtE
  | is
  | isNot
  | in
  | notIn
  deriving Repr, DecidableEq, Inhabited

def CompareOp.sign : CompareOp → String
  | eq => "=="
  | notEq => "!="
  | lt => "<"
  | ltE => "<="
  | gt => ">"
  | gtE => ">="
  | is => "is"
  | isNot => "is not"
  | .in => "in"
  | notIn => "not in"

end Workflow.Source
