/-
Numbers as they are written in scripts: decimal, hexadecimal, octal and binary
integers, and decimal fractions with an exponent, all with single underscores
between digits; a trailing `j` makes an imaginary number.
-/
import Workflow.Number.Read
import Workflow.Source.Token

namespace Workflow.Source

/-- The rest of a run of digits, with single underscores between them; `done` holds the digits read,
reversed. Nothing when an underscore is not followed by a digit. -/
def digitRun (isDigit : Char → Bool) (done : List Char) :
    List Char → Option (List Char × List Char)
  | [] => some (done.reverse, [])
  | '_' :: d :: rest => if isDigit d then digitRun isDigit (d :: done) rest else none
  | c :: rest =>
    if isDigit c then digitRun isDigit (c :: done) rest
    else if c = '_' then none
    else some (done.reverse, c :: rest)

/-- Whether a character may stand in an identifier, as far as cutting into tokens goes. -/
def isNameChar (c : Char) : Bool := c.isAlphanum || c = '_' || 0x80 ≤ c.toNat

/-- Whether what follows a number may follow it directly: no letter or digit, unless a word begins
that can come after a number. -/
def endsNumber : List Char → Bool
  | [] => true
  | cs@(c :: _) =>
    !isNameChar c ||
      ["and", "else", "for", "if", "in", "is", "or", "not"].any fun w => w.toList.isPrefixOf cs

/-- Ends a number that is no plain integer: a trailing `j` makes it imaginary. -/
def finishFraction (digits : Nat) (exponent : Int) : List Char → Option (Constant × List Char)
  | cs =>
    let value := Number.ofDecimal false digits exponent
    match cs with
    | 'j' :: rest | 'J' :: rest => if endsNumber rest then some (.imaginary value, rest) else none
    | rest => if endsNumber rest then some (.float value, rest) else none

/-- Whether an exponent follows: an `e` with a digit or a sign after it. -/
def startsExponent : List Char → Bool
  | e :: s :: _ => (e = 'e' ∨ e = 'E') ∧ (s.isDigit ∨ s = '+' ∨ s = '-')
  | _ => false

/-- Reads an exponent, if there is one, after the digits before and behind the point. -/
def readExponentPart (whole fraction : List Char) (cs : List Char) :
    Option (Constant × List Char) :=
  let digits := Number.decimalValue (whole ++ fraction)
  let places : Int := fraction.length
  if startsExponent cs then
    let (negative, run) := Number.takeSign cs.tail
    match run with
    | d :: rest =>
      if d.isDigit then
        (digitRun Char.isDigit [d] rest).bind fun (run, rest) =>
          -- A power beyond any double is as good as a larger one.
          let e : Int := min (Number.decimalValue run) (100000 + whole.length + fraction.length)
          finishFraction digits ((if negative then -e else e) - places) rest
      else none
    | [] => none
  else finishFraction digits (-places) cs

/-- Reads what follows the point of a number. -/
def readFraction (whole : List Char) (cs : List Char) : Option (Constant × List Char) :=
  match cs with
  | d :: rest =>
    if d.isDigit then
      (digitRun Char.isDigit [d] rest).bind fun (fraction, rest) =>
        readExponentPart whole fraction rest
    else readExponentPart whole [] cs
  | [] => readExponentPart whole [] cs

/-- Reads what follows the leading digits of a decimal number. -/
def readDecimalTail (whole : List Char) (cs : List Char) : Option (Constant × List Char) :=
  match cs with
  | '.' :: rest => readFraction whole rest
  | 'j' :: rest | 'J' :: rest =>
    if endsNumber rest then
      some (.imaginary (Number.ofDecimal false (Number.decimalValue whole) 0), rest)
    else none
  | cs =>
    if startsExponent cs then readExponentPart whole [] cs
    else
      -- A decimal integer has no leading zeros, unless it is zero.
      let value := Number.decimalValue whole
      if whole.head? = some '0' ∧ value ≠ 0 then none
      else if Number.maxDigits < whole.length then none
      else if endsNumber cs then some (.int value, cs)
      else none

/-- Reads the digits after the mark of a base. -/
def readBased (base : Nat) (cs : List Char) : Option (Constant × List Char) :=
  let isDigit (c : Char) : Bool := match Number.baseDigit? c with
    | some d => d < base
    | none => false
  let cs := match cs with
    | '_' :: rest => rest
    | cs => cs
  match cs with
  | d :: rest =>
    if isDigit d then
      (digitRun isDigit [d] rest).bind fun (run, rest) =>
        if (rest.head?.map Char.isDigit).getD false ∨ !endsNumber rest then none
        else
          let value := run.foldl (fun n c => base * n + (Number.baseDigit? c).getD 0) 0
          some (.int value, rest)
    else none
  | [] => none

/-- Reads a number from its first digit, or from a point that a digit follows. Nothing when it is
ill-formed. -/
def readNumber (cs : List Char) : Option (Constant × List Char) :=
  match cs with
  | '.' :: rest => readFraction [] rest
  | '0' :: c :: rest =>
    if c = 'x' ∨ c = 'X' then readBased 16 rest
    else if c = 'o' ∨ c = 'O' then readBased 8 rest
    else if c = 'b' ∨ c = 'B' then readBased 2 rest
    else (digitRun Char.isDigit ['0'] (c :: rest)).bind fun (whole, rest) => readDecimalTail whole rest
  | d :: rest =>
    (digitRun Char.isDigit [d] rest).bind fun (whole, rest) => readDecimalTail whole rest
  | [] => none

end Workflow.Source
