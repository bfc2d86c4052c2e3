/-
What may be wrong with a value that should have a given form, where in the
value it is, and how it is reported.
-/
import Workflow.Value.Text

namespace Workflow

/-- A step into a value: to the field of a record, or to the item of a list. -/
inductive PathStep where
  | field (name : String)
  | item (index : Nat)
  deriving Repr, DecidableEq, Inhabited

def PathStep.text : PathStep → String
  | field name => name
  | item index => Number.natText index

/-- What is wrong with a value. -/
inductive Defect where
  | missing
  | noText
  | undecodable
  | tooShort (least : Nat)
  /-- Not one of the options; `closed` when the options are a type of their own. -/
  | noOption (closed : Bool) (options : List String)
  | noFlag
  | unreadableFlag
  | noDict
  | noList
  | noRecord (name : String)
  | noFields
  | noInteger
  | unreadableInteger
  | fractional
  | infinite
  | tooManyDigits
  | tooSmall (least : Int)
  | noTextKey
  | refused (reason : String)
  deriving Repr, DecidableEq, Inhabited

/-- Options as they are listed: all but the last set apart by commas. -/
def optionList (options : List String) : String :=
  let shown := options.map Text.quoted
  match shown.reverse with
  | [] => ""
  | [only] => only
  | last :: before => ", ".intercalate before.reverse ++ " or " ++ last

namespace Defect

def message : Defect → String
  | missing => "Field required"
  | noText => "Input should be a valid string"
  | undecodable => "Input should be a valid string, unable to parse raw data as a unicode string"
  | tooShort least =>
    "String should have at least " ++ Number.natText least ++
      (if least = 1 then " character" else " characters")
  | noOption _ options => "Input should be " ++ optionList options
  | noFlag => "Input should be a valid boolean"
  | unreadableFlag => "Input should be a valid boolean, unable to interpret input"
  | noDict => "Input should be a valid dictionary"
  | noList => "Input should be a valid list"
  | noRecord name => "Input should be a valid dictionary or instance of " ++ name
  | noFields => "Input should be a valid dictionary or object to extract fields from"
  | noInteger => "Input should be a valid integer"
  | unreadableInteger => "Input should be a valid integer, unable to parse string as an integer"
  | fractional => "Input should be a valid integer, got a number with a fractional part"
  | infinite => "Input should be a finite number"
  | tooManyDigits => "Unable to parse input string as an integer, exceeded maximum size"
  | tooSmall least => "Input should be greater than or equal to " ++ Number.intText least
  | noTextKey => "Keys should be strings"
  | refused reason => "Value error, " ++ reason

def family : Defect → String
  | missing => "missing"
  | noText => "string_type"
  | undecodable => "string_unicode"
  | tooShort _ => "string_too_short"
  | noOption closed _ => if closed then "enum" else "literal_error"
  | noFlag => "bool_type"
  | unreadableFlag => "bool_parsing"
  | noDict => "dict_type"
  | noList => "list_type"
  | noRecord _ => "model_type"
  | noFields => "model_attributes_type"
  | noInteger => "int_type"
  | unreadableInteger => "int_parsing"
  | fractional => "int_from_float"
  | infinite => "finite_number"
  | tooManyDigits => "int_parsing_size"
  | tooSmall _ => "greater_than_equal"
  | noTextKey => "invalid_key"
  | refused _ => "value_error"

end Defect

/-- A defect, where it is, and the value that has it. -/
structure Problem where
  path : List PathStep
  defect : Defect
  input : Value
  deriving Inhabited

def pathText (path : List PathStep) : String := ".".intercalate (path.map PathStep.text)

/-- The longest prefix of characters that take at most the given number of bytes. -/
def takeBytes : Nat → List Char → List Char
  | _, [] => []
  | budget, c :: rest =>
    if c.utf8Size ≤ budget then c :: takeBytes (budget - c.utf8Size) rest else []

/-- A long text with its middle left out: of more than 50 bytes the first 25 and the last 24 are
shown, without characters that are cut. -/
def shorten (s : String) : String :=
  let cs := s.toList
  if s.utf8ByteSize ≤ 50 then s
  else
    String.ofList (takeBytes 25 cs) ++ "..." ++
      String.ofList (takeBytes 24 cs.reverse).reverse

/-- The text of a problem in a report. -/
def Problem.text (p : Problem) : String :=
  (if p.path.isEmpty then "" else "\n" ++ pathText p.path) ++ "\n  " ++ p.defect.message ++
    " [type=" ++ p.defect.family ++ ", input_value=" ++ shorten p.input.literal ++
    ", input_type=" ++ p.input.typeName ++
    "]\n    For further information visit https://errors.pydantic.dev/2.14/v/" ++ p.defect.family

/-- The report on a value that should be a record of the given name. -/
def report (name : String) (problems : List Problem) : String :=
  Number.natText problems.length ++
    (if problems.length = 1 then " validation error for " else " validation errors for ") ++ name ++
    String.join (problems.map Problem.text)

end Workflow
