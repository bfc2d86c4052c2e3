/-
Numbers read from text: integers in any base up to 36, and decimals rounded
once to the nearest double. Digits of every script count, blanks around the
number are dropped, and single underscores may stand between digits.
-/
import Workflow.Number.Binary
import Workflow.Number.Shortest
import Workflow.Text.Blank
import Workflow.Text.Digits

namespace Workflow.Number

def decimalValue (digits : List Char) : Nat :=
  digits.foldl (fun n c => 10 * n + (c.toNat - 48)) 0

/-- The double nearest to `± m · 10^e`. Powers of ten far outside the range of doubles are not
computed. -/
def ofDecimal (negative : Bool) (m : Nat) (e : Int) : Float :=
  if m = 0 then withSign negative 0.0
  else
    let top := e + digitCount m
    if 310 < top then withSign negative infinity
    else if top < -330 then withSign negative 0.0
    else if 0 ≤ e then nearest negative (m * tenTo e.toNat) 1
    else nearest negative m (tenTo (-e).toNat)

/-- The value of a digit in a base above ten; letters of either case follow the nine. -/
def baseDigit? (c : Char) : Option Nat :=
  if '0' ≤ c ∧ c ≤ '9' then some (c.toNat - 48)
  else if 'a' ≤ c ∧ c ≤ 'z' then some (c.toNat - 87)
  else if 'A' ≤ c ∧ c ≤ 'Z' then some (c.toNat - 55)
  else none

/-- The number that digits of a base denote, single underscores allowed between them; `afterDigit`
says whether a digit came just before. -/
def readDigits (base : Nat) (n : Nat) (afterDigit : Bool) : List Char → Option Nat
  | [] => if afterDigit then some n else none
  | '_' :: rest => if afterDigit then readDigits base n false rest else none
  | c :: rest =>
    match baseDigit? c with
    | some d => if d < base then readDigits base (n * base + d) true rest else none
    | none => none

/-- Every digit of another script as the digit of the same value. -/
def plainDigits (cs : List Char) : List Char :=
  cs.map fun c =>
    match Text.digitValue? c with
    | some d => Char.ofNat (48 + d)
    | none => c

def takeSign : List Char → Bool × List Char
  | '-' :: rest => (true, rest)
  | '+' :: rest => (false, rest)
  | cs => (false, cs)

/-- The base that a prefix such as `0x` announces. -/
def prefixBase? : List Char → Option Nat
  | '0' :: c :: _ =>
    if c = 'x' ∨ c = 'X' then some 16
    else if c = 'o' ∨ c = 'O' then some 8
    else if c = 'b' ∨ c = 'B' then some 2
    else none
  | _ => none

/-- The digits after a base prefix, without the underscore that may follow it. -/
def afterPrefix (cs : List Char) : List Char :=
  match cs.drop 2 with
  | '_' :: rest => rest
  | rest => rest

/-- Reads the digits of an integer whose base may be announced by a prefix. In base zero the prefix
decides, and a number without one starts with no needless zero. -/
def readUnsigned (base : Nat) (cs : List Char) : Option Nat :=
  match prefixBase? cs with
  | some b =>
    if base = 0 ∨ base = b then readDigits b 0 false (afterPrefix cs) else readDigits base 0 false cs
  | none =>
    if base = 0 then
      match readDigits 10 0 false cs with
      | some 0 => some 0
      | some n => if cs.head? = some '0' then none else some n
      | none => none
    else readDigits base 0 false cs

/-- The integer that a text denotes in a base; base zero reads the base off a prefix. -/
def readInt? (base : Nat) (text : String) : Option Int :=
  let (negative, digits) := takeSign (plainDigits (Text.trim text).toList)
  (readUnsigned base digits).map (signed negative)

/-- How many digits of a base a text starts with, underscores apart. -/
def leadingDigits (base : Nat) : List Char → Nat
  | [] => 0
  | '_' :: rest => leadingDigits base rest
  | c :: rest =>
    match baseDigit? c with
    | some d => if d < base then leadingDigits base rest + 1 else 0
    | none => 0

/-- The number of digits that a text starts with, when it is more than an integer may have. Bases
that are powers of two know no such limit. -/
def overlong? (base : Nat) (text : String) : Option Nat :=
  let digits := (takeSign (plainDigits (Text.trim text).toList)).2
  let base := if base = 0 then (prefixBase? digits).getD 10 else base
  let count := leadingDigits base digits
  if maxDigits < count ∧ base ∉ [2, 4, 8, 16, 32] then some count else none

/-- Splits off leading decimal digits with single underscores between them; the underscores go.
Nothing when an underscore stands elsewhere. -/
def takeDecimals (afterDigit : Bool) (done : List Char) : List Char → Option (List Char × List Char)
  | '_' :: rest =>
    match afterDigit, rest with
    | true, c :: _ => if c.isDigit then takeDecimals false done rest else none
    | _, _ => none
  | c :: rest =>
    if c.isDigit then takeDecimals true (c :: done) rest else some (done.reverse, c :: rest)
  | [] => some (done.reverse, [])

/-- The exponent after the mantissa of a decimal; zero when there is none. -/
def readExponent : List Char → Option Int
  | [] => some 0
  | c :: rest =>
    if c = 'e' ∨ c = 'E' then
      let (negative, cs) := takeSign rest
      match takeDecimals false [] cs with
      | some (digits, []) =>
        if digits.isEmpty then none else some (signed negative (decimalValue digits))
      | _ => none
    else none

/-- Reads a decimal without sign: digits, a point and more digits, an exponent. -/
def readDecimal? (negative : Bool) (cs : List Char) : Option Float :=
  match takeDecimals false [] cs with
  | none => none
  | some (whole, rest) =>
    let fraction :=
      match rest with
      | '.' :: rest => takeDecimals false [] rest
      | _ => some ([], rest)
    match fraction with
    | none => none
    | some (places, rest) =>
      if whole.isEmpty && places.isEmpty then none
      else
        (readExponent rest).map fun e =>
          ofDecimal negative (decimalValue (whole ++ places)) (e - places.length)

/-- The double that a text denotes: a decimal, an infinity or not a number. -/
def readFloat? (text : String) : Option Float :=
  let (negative, cs) := takeSign (plainDigits (Text.trim text).toList)
  let word := String.ofList (cs.map Char.toLower)
  if word = "inf" ∨ word = "infinity" then some (withSign negative infinity)
  else if word = "nan" then some (withSign negative notANumber)
  else readDecimal? negative cs

end Workflow.Number
