/-
Integers given as text or as floating point numbers.
-/
import Workflow.Number.Binary
import Workflow.Number.Read
import Workflow.Schema.Problem
import Workflow.Text.Blank

namespace Workflow.Schema

/-- Blanks that may surround an integer. The separators between records and units are not among
them. -/
def isMargin (c : Char) : Bool :=
  Text.isBlank c && !(0x1c ≤ c.toNat && c.toNat ≤ 0x1f)

/-- Whether a run of characters is an integer in plain form: an optional minus and digits without
a leading zero. -/
def isPlainInteger (cs : List Char) : Bool :=
  let digits := match cs with
    | '-' :: rest => rest
    | cs => cs
  match digits with
  | [] => false
  | ['0'] => true
  | d :: rest => d ≠ '0' && (d :: rest).all Char.isDigit

/-- The value of an integer in plain form. -/
def plainValue (cs : List Char) : Int :=
  match cs with
  | '-' :: rest => -(Number.decimalValue rest : Int)
  | cs => Number.decimalValue cs

/-- Drops zeros, and underscores after them, before the first other digit. A zero before a point
and the last character of all are kept; `last` is the character before the remaining ones. -/
def dropZeros (last : Char) : List Char → Option (List Char)
  | [] => some [last]
  | '.' :: rest => some (last :: '.' :: rest)
  | c :: rest =>
    if c = '0' ∨ c = '_' then dropZeros c rest
    else if c.isDigit then some (c :: rest)
    else none

/-- Drops leading zeros; a number starts with a digit or a minus. -/
def withoutZeros : List Char → Option (List Char)
  | '0' :: rest => dropZeros '0' rest
  | '-' :: rest => some ('-' :: rest)
  | c :: rest => if c.isDigit then some (c :: rest) else none
  | [] => none

def withoutFraction (cs : List Char) : List Char :=
  let fraction := (cs.dropWhile (· ≠ '.')).drop 1
  if cs.contains '.' ∧ fraction.all (· = '0') then cs.takeWhile (· ≠ '.') else cs

def hasDoubleUnderscore : List Char → Bool
  | '_' :: '_' :: _ => true
  | _ :: rest => hasDoubleUnderscore rest
  | [] => false

/-- Drops the underscores between digits. -/
def withoutUnderscores (cs : List Char) : Option (List Char) :=
  if cs.head? = some '_' ∨ cs.getLast? = some '_' ∨ hasDoubleUnderscore cs then none
  else some (cs.filter (· ≠ '_'))

/-- The plain form of an integer with a plus, leading zeros, a fraction of zeros or underscores. -/
def plainForm? (cs : List Char) : Option (List Char) := do
  let cs := match cs with
    | '+' :: '-' :: rest => '+' :: '-' :: rest
    | '+' :: rest => rest
    | cs => cs
  let cs ← withoutZeros cs
  withoutUnderscores (withoutFraction cs)

/-- The integer that a text gives. -/
def integerOfText (s : String) : Except Defect Int :=
  let cs := (Text.trimWhere isMargin s).toList
  let value (cs : List Char) : Except Defect Int :=
    if cs.length ≤ Number.maxDigits then .ok (plainValue cs) else .error .tooManyDigits
  if isPlainInteger cs then value cs
  else
    match plainForm? cs with
    | some plain => if isPlainInteger plain then value plain else .error .unreadableInteger
    | none => .error .unreadableInteger

/-- The integer that a floating point number is. -/
def integerOfFloat (x : Float) : Except Defect Int :=
  if !Number.isFinite x then .error .infinite
  else
    match Number.integer? x with
    | none => .error .fractional
    | some n => if n.natAbs < Number.twoTo 63 then .ok n else .error .tooManyDigits

end Workflow.Schema
