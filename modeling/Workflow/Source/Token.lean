/-
The tokens of scripts.
-/
import Workflow.Source.Tree

namespace Workflow.Source

/-- Why a text is no script. -/
inductive SourceError where
  /-- The text breaks a rule of the grammar. -/
  | malformed
  /-- A line stands at a depth that its place does not allow. -/
  | indentation
  /-- Tabs and spaces are mixed so that depths cannot be compared. -/
  | tabs
  /-- The text holds the character zero. -/
  | nullCharacter
  deriving Repr, DecidableEq, Inhabited

/-- A quoted piece of text as written: the marks before its opening quote, and what stands between
the quotes. -/
structure Quotation where
  raw : Bool
  bytes : Bool
  formatted : Bool
  marked : Bool
  body : List Char
  deriving Repr, DecidableEq, Inhabited

inductive Token where
  | name (id : String)
  | keyword (word : String)
  | number (value : Constant)
  | text (quotation : Quotation)
  | sign (chars : String)
  | newline
  | indent
  | dedent
  | finish
  /-- Where the text cannot be cut into further tokens. -/
  | bad (cause : SourceError)
  deriving Inhabited

def keywords : List String :=
  ["False", "None", "True", "and", "as", "assert", "async", "await", "break", "class", "continue",
   "def", "del", "elif", "else", "except", "finally", "for", "from", "global", "if", "import", "in",
   "is", "lambda", "nonlocal", "not", "or", "pass", "raise", "return", "try", "while", "with",
   "yield"]

end Workflow.Source
