/-
What can go wrong while values are computed with: the causes, the family each
belongs to, and its wording.
-/
import Workflow.Number.Shortest
import Workflow.Text.Quoted

namespace Workflow

inductive FaultKind where
  | typeMismatch
  | badValue
  | zeroDivision
  | overflow
  | noMemory
  | missingAttribute
  | missingIndex
  | missingKey
  | missingName
  | missingCodec
  | badEncoding
  | badSource
  | badIndentation
  | badTabs
  | refused
  deriving Repr, DecidableEq, Inhabited

/-- The name under which a family of faults is reported. -/
def FaultKind.name : FaultKind → String
  | typeMismatch => "TypeError"
  | badValue => "ValueError"
  | zeroDivision => "ZeroDivisionError"
  | overflow => "OverflowError"
  | noMemory => "MemoryError"
  | missingAttribute => "AttributeError"
  | missingIndex => "IndexError"
  | missingKey => "KeyError"
  | missingName => "NameError"
  | missingCodec => "LookupError"
  | badEncoding => "UnicodeDecodeError"
  | badSource => "SyntaxError"
  | badIndentation => "IndentationError"
  | badTabs => "TabError"
  | refused => "ExpressionError"

/-- How many arguments a function takes, in the wording of its complaint about any other number. -/
inductive Arity where
  /-- `f() takes no arguments` -/
  | none
  /-- `f() takes exactly one argument` -/
  | one
  /-- `f expected at least n arguments`, `f expected at most n arguments` -/
  | between (least most : Nat)
  /-- `f() takes at least n arguments`, `f() takes at most n arguments` -/
  | taking (least most : Nat)
  deriving Repr, DecidableEq, Inhabited

/-- A cause of failure. Operators and types are given by the names that messages use. -/
inductive Fault where
  -- operators
  | unsupportedOperands (operator left right : String)
  | badUnaryOperand (operator operand : String)
  | badAbsOperand (operand : String)
  | notOrdered (operator left right : String)
  | concatMismatch (left right : String)
  | concatToBytes (right : String)
  | repeatByNonInteger (operand : String)
  | repeatedTextTooLong
  | repeatedBytesTooLong
  | outOfMemory
  | countTooLarge
  | integerDivisionByZero
  | divisionByZero
  | integerModuloByZero
  | floatDivisionByZero
  | floatFloorDivisionByZero
  | floatModuloByZero
  | complexDivisionByZero
  | zeroToNegativePower
  | complexZeroPower
  | powerOverflow
  | complexPowerOverflow
  | integerTooLargeForFloat
  | quotientTooLargeForFloat
  | negativeShift
  -- containers
  | notIterable (typeName : String)
  | notAContainer (typeName : String)
  | notSubscriptable (typeName : String)
  | noLength (typeName : String)
  | unhashable (typeName : String)
  | badIndex (sequence typeName : String)
  | badTextIndex (typeName : String)
  | badSliceIndex
  | badSearchIndex
  | zeroSliceStep
  | indexOutOfRange (sequence : String)
  | absentKey (key : String)
  | absentAttribute (typeName attr : String)
  | notInList (item : String)
  | textMembership (typeName : String)
  | bytesRequired (typeName : String)
  | byteOutOfRange
  -- conversions
  | notAnInteger (typeName : String)
  | notARealNumber (typeName : String)
  | integerArgument (typeName : String)
  | floatArgument (typeName : String)
  | overlongText (digits : Nat)
  | overlongInteger
  | integerLiteral (base : Nat) (text : String)
  | floatLiteral (text : String)
  | integerBase
  | integerBaseOfNonText
  | nanToInteger
  | infinityToInteger
  | roundedTooLarge
  | noRounding (typeName : String)
  | codecArgument (name typeName : String)
  | decodingText
  | decodingOther (typeName : String)
  | unknownCodec (name : String)
  | undecodable (codec : String) (byte position : Nat) (last : Option Nat) (reason : String)
  -- functions and methods
  | argumentCount (function : String) (arity : Arity) (given : Nat)
  | missingArguments (function : String) (names : List String)
  | tooManyArguments (function : String) (takes given : Nat)
  | missingPositional (function : String) (least : Nat)
  | missingNamed (function name : String) (position : Nat)
  | emptySequence (function : String)
  | sumOfTexts
  | sumOfBytes
  | argumentType (function : String) (position : Nat) (expected actual : String)
  | expectedText (typeName : String)
  | expectedTextOrNone (typeName : String)
  | stripArgument (function : String)
  | affixArgument (function typeName : String)
  | affixTuple (function typeName : String)
  | emptySeparator
  | joinOfNonIterable
  | joinItem (position : Nat) (typeName : String)
  | notCallable (typeName : String)
  -- writing
  | badKey (typeName : String)
  -- formatting
  | tooFewFormatArguments
  | unusedFormatArguments
  | formatNeedsMapping
  | formatNeedsNumber (directive : Char) (typeName : String)
  | formatNeedsInteger (directive : Char) (typeName : String)
  | formatNeedsReal (typeName : String)
  | formatNeedsChar
  | formatCharRange
  | formatWidth
  | formatUnknown (directive : Char) (position : Nat)
  | formatIncomplete
  | formatIncompleteKey
  -- source text
  | nullInSource
  | sourceError
  | indentationError
  | tabError
  | unboundName (name : String)
  -- refusals of the expression language
  | undefinedName (name : String)
  | unsupportedSyntax (form : String)
  | unsupportedOperator (operator : String)
  | hiddenAttribute (attr : String)
  | functionNotAllowed (name : String)
  | methodNotAllowed (name : String)
  | keywordArguments
  | dictUnpacking
  | unsupportedCall
  deriving Repr, DecidableEq, Inhabited

namespace Fault

def kind : Fault → FaultKind
  | integerDivisionByZero | divisionByZero | integerModuloByZero | floatDivisionByZero
  | floatFloorDivisionByZero | floatModuloByZero | complexDivisionByZero | zeroToNegativePower
  | complexZeroPower => .zeroDivision
  | powerOverflow | complexPowerOverflow | integerTooLargeForFloat | quotientTooLargeForFloat
  | infinityToInteger | roundedTooLarge | formatCharRange | countTooLarge
  | repeatedTextTooLong | repeatedBytesTooLong => .overflow
  | outOfMemory => .noMemory
  | indexOutOfRange _ => .missingIndex
  | absentKey _ => .missingKey
  | absentAttribute .. => .missingAttribute
  | unknownCodec _ => .missingCodec
  | undecodable .. => .badEncoding
  | zeroSliceStep | notInList _ | byteOutOfRange | overlongText _ | overlongInteger
  | integerLiteral .. | floatLiteral _ | integerBase
  | nanToInteger | negativeShift | emptySequence _ | emptySeparator | formatUnknown .. | formatIncomplete
  | formatIncompleteKey | nullInSource => .badValue
  | sourceError => .badSource
  | indentationError => .badIndentation
  | tabError => .badTabs
  | unboundName _ => .missingName
  | undefinedName _ | unsupportedSyntax _ | unsupportedOperator _ | hiddenAttribute _
  | functionNotAllowed _ | methodNotAllowed _ | keywordArguments | dictUnpacking
  | unsupportedCall => .refused
  | _ => .typeMismatch

/-- A number of arguments, with the plural where it is not one. -/
def arguments (n : Nat) : String :=
  Number.natText n ++ (if n = 1 then " argument" else " arguments")

/-- The complaint about a number of arguments. -/
def arityMessage (function : String) (arity : Arity) (given : Nat) : String :=
  let count := Number.natText given
  match arity with
  | .none => function ++ "() takes no arguments (" ++ count ++ " given)"
  | .one => function ++ "() takes exactly one argument (" ++ count ++ " given)"
  | .between least most =>
    if least = most then function ++ " expected " ++ arguments least ++ ", got " ++ count
    else if given < least then function ++ " expected at least " ++ arguments least ++ ", got " ++ count
    else function ++ " expected at most " ++ arguments most ++ ", got " ++ count
  | .taking least most =>
    if given < least then
      function ++ "() takes at least " ++ arguments least ++ " (" ++ count ++ " given)"
    else function ++ "() takes at most " ++ arguments most ++ " (" ++ count ++ " given)"

/-- Names in quotes, the last two joined by `and`. -/
def nameList (names : List String) : String :=
  match names.map fun n => "'" ++ n ++ "'" with
  | [] => ""
  | [a] => a
  | [a, b] => a ++ " and " ++ b
  | quoted => ", ".intercalate quoted.dropLast ++ ", and " ++ quoted.getLastD ""

def message : Fault → String
  | unsupportedOperands operator left right =>
    "unsupported operand type(s) for " ++ operator ++ ": '" ++ left ++ "' and '" ++ right ++ "'"
  | badUnaryOperand operator operand =>
    "bad operand type for unary " ++ operator ++ ": '" ++ operand ++ "'"
  | badAbsOperand operand => "bad operand type for abs(): '" ++ operand ++ "'"
  | notOrdered operator left right =>
    "'" ++ operator ++ "' not supported between instances of '" ++ left ++ "' and '" ++ right ++ "'"
  | concatMismatch left right =>
    "can only concatenate " ++ left ++ " (not \"" ++ right ++ "\") to " ++ left
  | concatToBytes right => "can't concat " ++ right ++ " to bytes"
  | repeatByNonInteger operand =>
    "can't multiply sequence by non-int of type '" ++ operand ++ "'"
  | repeatedTextTooLong => "repeated string is too long"
  | repeatedBytesTooLong => "repeated bytes are too long"
  | outOfMemory => ""
  | countTooLarge => "cannot fit 'int' into an index-sized integer"
  | integerDivisionByZero => "integer division or modulo by zero"
  | divisionByZero => "division by zero"
  | integerModuloByZero => "integer modulo by zero"
  | floatDivisionByZero => "float division by zero"
  | floatFloorDivisionByZero => "float floor division by zero"
  | floatModuloByZero => "float modulo"
  | complexDivisionByZero => "complex division by zero"
  | zeroToNegativePower => "0.0 cannot be raised to a negative power"
  | complexZeroPower => "0.0 to a negative or complex power"
  | powerOverflow => "(34, 'Numerical result out of range')"
  | complexPowerOverflow => "complex exponentiation"
  | integerTooLargeForFloat => "int too large to convert to float"
  | quotientTooLargeForFloat => "integer division result too large for a float"
  | negativeShift => "negative shift count"
  | notIterable t => "'" ++ t ++ "' object is not iterable"
  | notAContainer t => "argument of type '" ++ t ++ "' is not iterable"
  | notSubscriptable t => "'" ++ t ++ "' object is not subscriptable"
  | noLength t => "object of type '" ++ t ++ "' has no len()"
  | unhashable t => "unhashable type: '" ++ t ++ "'"
  | badIndex sequence t => sequence ++ " indices must be integers or slices, not " ++ t
  | badTextIndex t => "string indices must be integers, not '" ++ t ++ "'"
  | badSliceIndex => "slice indices must be integers or None or have an __index__ method"
  | badSearchIndex => "slice indices must be integers or have an __index__ method"
  | zeroSliceStep => "slice step cannot be zero"
  | indexOutOfRange sequence => sequence ++ " index out of range"
  | absentKey key => key
  | absentAttribute t attr => "'" ++ t ++ "' object has no attribute '" ++ attr ++ "'"
  | notInList item => item ++ " is not in list"
  | textMembership t => "'in <string>' requires string as left operand, not " ++ t
  | bytesRequired t => "a bytes-like object is required, not '" ++ t ++ "'"
  | byteOutOfRange => "byte must be in range(0, 256)"
  | notAnInteger t => "'" ++ t ++ "' object cannot be interpreted as an integer"
  | notARealNumber t => "must be real number, not " ++ t
  | integerArgument t =>
    "int() argument must be a string, a bytes-like object or a real number, not '" ++ t ++ "'"
  | floatArgument t => "float() argument must be a string or a real number, not '" ++ t ++ "'"
  | overlongText digits =>
    "Exceeds the limit (4300 digits) for integer string conversion: value has " ++
      Number.natText digits ++ " digits; use sys.set_int_max_str_digits() to increase the limit"
  | overlongInteger =>
    "Exceeds the limit (4300 digits) for integer string conversion; " ++
      "use sys.set_int_max_str_digits() to increase the limit"
  | integerLiteral base text =>
    "invalid literal for int() with base " ++ Number.natText base ++ ": " ++ text
  | floatLiteral text => "could not convert string to float: " ++ text
  | integerBase => "int() base must be >= 2 and <= 36, or 0"
  | integerBaseOfNonText => "int() can't convert non-string with explicit base"
  | nanToInteger => "cannot convert float NaN to integer"
  | infinityToInteger => "cannot convert float infinity to integer"
  | roundedTooLarge => "rounded value too large to represent"
  | noRounding t => "type " ++ t ++ " doesn't define __round__ method"
  | codecArgument name t => "str() argument '" ++ name ++ "' must be str, not " ++ t
  | decodingText => "decoding str is not supported"
  | decodingOther t => "decoding to str: need a bytes-like object, " ++ t ++ " found"
  | unknownCodec name => "unknown encoding: " ++ name
  | undecodable codec byte position none reason =>
    "'" ++ codec ++ "' codec can't decode byte 0x" ++ String.ofList (Text.hexPadded 2 byte) ++
      " in position " ++ Number.natText position ++ ": " ++ reason
  | undecodable codec _ position (some last) reason =>
    "'" ++ codec ++ "' codec can't decode bytes in position " ++ Number.natText position ++ "-" ++
      Number.natText last ++ ": " ++ reason
  | argumentCount function arity given => arityMessage function arity given
  | missingArguments function names =>
    function ++ "() missing " ++ Number.natText names.length ++ " required positional argument" ++
      (if names.length = 1 then "" else "s") ++ ": " ++ nameList names
  | tooManyArguments function takes given =>
    function ++ "() takes " ++ Number.natText takes ++ " positional argument" ++
      (if takes = 1 then "" else "s") ++ " but " ++ Number.natText given ++
      (if given = 1 then " was given" else " were given")
  | missingPositional function least =>
    function ++ "() takes at least " ++ Number.natText least ++ " positional argument" ++
      (if least = 1 then "" else "s") ++ " (0 given)"
  | missingNamed function name position =>
    function ++ "() missing required argument '" ++ name ++ "' (pos " ++ Number.natText position ++ ")"
  | emptySequence function => function ++ "() arg is an empty sequence"
  | sumOfTexts => "sum() can't sum strings [use ''.join(seq) instead]"
  | sumOfBytes => "sum() can't sum bytes [use b''.join(seq) instead]"
  | argumentType function position expected actual =>
    function ++ "() argument " ++ Number.natText position ++ " must be " ++ expected ++ ", not " ++ actual
  | expectedText t => "must be str, not " ++ t
  | expectedTextOrNone t => "must be str or None, not " ++ t
  | stripArgument function => function ++ " arg must be None or str"
  | affixArgument function t => function ++ " first arg must be str or a tuple of str, not " ++ t
  | affixTuple function t => "tuple for " ++ function ++ " must only contain str, not " ++ t
  | emptySeparator => "empty separator"
  | joinOfNonIterable => "can only join an iterable"
  | joinItem position t =>
    "sequence item " ++ Number.natText position ++ ": expected str instance, " ++ t ++ " found"
  | badKey t => "keys must be str, int, float, bool or None, not " ++ t
  | notCallable t => "'" ++ t ++ "' object is not callable"
  | tooFewFormatArguments => "not enough arguments for format string"
  | unusedFormatArguments => "not all arguments converted during string formatting"
  | formatNeedsMapping => "format requires a mapping"
  | formatNeedsNumber directive t =>
    "%" ++ String.singleton directive ++ " format: a real number is required, not " ++ t
  | formatNeedsInteger directive t =>
    "%" ++ String.singleton directive ++ " format: an integer is required, not " ++ t
  | formatNeedsReal t => "must be real number, not " ++ t
  | formatNeedsChar => "%c requires int or char"
  | formatCharRange => "%c arg not in range(0x110000)"
  | formatWidth => "* wants int"
  | formatUnknown directive position =>
    "unsupported format character '" ++
      (if 0x20 < directive.toNat ∧ directive.toNat < 0x7f then String.singleton directive else "?") ++
      "' (0x" ++ String.ofList (Nat.toDigits 16 directive.toNat) ++ ") at index " ++
      Number.natText position
  | formatIncomplete => "incomplete format"
  | formatIncompleteKey => "incomplete format key"
  | nullInSource => "source code string cannot contain null bytes"
  | sourceError | indentationError | tabError => "<syntax error>"
  | unboundName name => "name '" ++ name ++ "' is not defined"
  | undefinedName name => "name '" ++ name ++ "' is not defined"
  | unsupportedSyntax form => "unsupported syntax: " ++ form
  | unsupportedOperator operator => "unsupported operator: " ++ operator
  | hiddenAttribute attr => "access to '" ++ attr ++ "' is not allowed"
  | functionNotAllowed name => "function '" ++ name ++ "' is not allowed"
  | methodNotAllowed name => "method '" ++ name ++ "' is not allowed"
  | keywordArguments => "keyword arguments are not allowed"
  | dictUnpacking => "dict unpacking is not allowed"
  | unsupportedCall => "unsupported call target"

end Fault

/-- A computation on values: its result, or the first fault it meets. -/
abbrev Outcome := Except Fault

end Workflow
