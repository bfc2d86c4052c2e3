/-
Reading JSON. Beyond the standard, `NaN`, `Infinity` and `-Infinity` are
numbers. A number with a fraction or an exponent is a double, any other an
integer of any size. Of two entries with one key the last value counts, at the
place of the first.
-/
import Workflow.Number.Read
import Workflow.Text.CharSet
import Workflow.Text.Utf8
import Workflow.Value.Compare

namespace Workflow.Json

/-- What is wrong with a JSON text at a place. -/
inductive Problem where
  | expectedValue
  | expectedName
  | expectedColon
  | expectedComma
  | unterminatedText
  | controlCharacter
  | badEscape
  | badCodeEscape
  | extraData
  | byteOrderMark
  deriving Repr, DecidableEq, Inhabited

def Problem.message : Problem → String
  | expectedValue => "Expecting value"
  | expectedName => "Expecting property name enclosed in double quotes"
  | expectedColon => "Expecting ':' delimiter"
  | expectedComma => "Expecting ',' delimiter"
  | unterminatedText => "Unterminated string starting at"
  | controlCharacter => "Invalid control character at"
  | badEscape => "Invalid \\escape: "
  | badCodeEscape => "Invalid \\uXXXX escape"
  | extraData => "Extra data"
  | byteOrderMark => "Unexpected UTF-8 BOM (decode using utf-8-sig)"

/-- Why a text cannot be read: a problem with `left` characters to go, or an integer with too many
digits. -/
inductive Failure where
  | at (problem : Problem) (left : Nat)
  | tooManyDigits (count : Nat)
  deriving Repr, DecidableEq, Inhabited

def isSpace (c : Char) : Bool := c = ' ' || c = '\t' || c = '\n' || c = '\r'

def skipSpaces (cs : List Char) : List Char := cs.dropWhile isSpace

/-- The character of an escape of one letter. -/
def escapeChar? : Char → Option Char
  | '"' => some '"'
  | '\\' => some '\\'
  | '/' => some '/'
  | 'b' => some (Char.ofNat 8)
  | 'f' => some (Char.ofNat 12)
  | 'n' => some '\n'
  | 'r' => some '\r'
  | 't' => some '\t'
  | _ => none

/-- The code of four hexadecimal digits at the front, which a further character follows. -/
def fourDigits? : List Char → Option (Nat × List Char)
  | a :: b :: c :: d :: rest =>
    if [a, b, c, d].all Text.isHexDigit ∧ !rest.isEmpty then
      some (Text.hexValue [a, b, c, d], rest)
    else none
  | _ => none

/-- The character of a code; half of a pair that stands alone gives the replacement character. -/
def codeChar (n : Nat) : Char := if n.isValidChar then Char.ofNat n else Char.ofNat 0xfffd

/-- The character of an escaped code, joined with a following second half of a pair. -/
def joinHalves (n : Nat) (rest : List Char) : Char × List Char :=
  if 0xd800 ≤ n ∧ n < 0xdc00 then
    match rest with
    | '\\' :: 'u' :: more =>
      match fourDigits? more with
      | some (m, more) =>
        if 0xdc00 ≤ m ∧ m < 0xe000 then
          (codeChar (0x10000 + (n - 0xd800) * 0x400 + (m - 0xdc00)), more)
        else (codeChar n, rest)
      | none => (codeChar n, rest)
    | _ => (codeChar n, rest)
  else (codeChar n, rest)

/-- Reads a text after its opening quote; `start` characters were left before the quote. -/
def readText (fuel start : Nat) (done : List Char) (cs : List Char) :
    Except Failure (String × List Char) :=
  match fuel with
  | 0 => .error (.at .unterminatedText start)
  | fuel + 1 =>
    match cs with
    | [] => .error (.at .unterminatedText start)
    | '"' :: rest => .ok (String.ofList done.reverse, rest)
    | ['\\'] => .error (.at .unterminatedText start)
    | '\\' :: 'u' :: rest =>
      match fourDigits? rest with
      | some (n, rest) =>
        let (c, rest) := joinHalves n rest
        readText fuel start (c :: done) rest
      | none => .error (.at .badCodeEscape (rest.length + 1))
    | '\\' :: e :: rest =>
      match escapeChar? e with
      | some c => readText fuel start (c :: done) rest
      | none => .error (.at .badEscape cs.length)
    | c :: rest =>
      if c.toNat < 0x20 then .error (.at .controlCharacter cs.length)
      else readText fuel start (c :: done) rest

/-- The exponent at the front, as its sign and digits, if there is a complete one. -/
def takeExponent : List Char → Option (Bool × List Char × List Char)
  | e :: rest =>
    if e = 'e' ∨ e = 'E' then
      let (negative, rest) := Number.takeSign rest
      let digits := rest.takeWhile Char.isDigit
      if digits.isEmpty then none else some (negative, digits, rest.dropWhile Char.isDigit)
    else none
  | [] => none

/-- The fraction at the front, if a digit follows the point. -/
def takeFraction : List Char → Option (List Char × List Char)
  | '.' :: rest =>
    let digits := rest.takeWhile Char.isDigit
    if digits.isEmpty then none else some (digits, rest.dropWhile Char.isDigit)
  | _ => none

/-- The digits of the integer part at the front: a zero, or digits that start with none. -/
def takeWhole : List Char → Option (List Char × List Char)
  | '0' :: rest => some (['0'], rest)
  | cs =>
    let digits := cs.takeWhile Char.isDigit
    if digits.isEmpty then none else some (digits, cs.dropWhile Char.isDigit)

def readNumber (cs : List Char) : Except Failure (Value × List Char) :=
  let (negative, unsigned) := match cs with
    | '-' :: rest => (true, rest)
    | cs => (false, cs)
  match takeWhole unsigned with
  | none => .error (.at .expectedValue cs.length)
  | some (whole, rest) =>
    let (fraction, rest) := (takeFraction rest).elim (none, rest) fun (f, rest) => (some f, rest)
    let (exponent, rest) := (takeExponent rest).elim (none, rest) fun (s, d, rest) => (some (s, d), rest)
    match fraction, exponent with
    | none, none =>
      if Number.maxDigits < whole.length then .error (.tooManyDigits whole.length)
      else
        let n : Int := Number.decimalValue whole
        .ok (.int (if negative then -n else n), rest)
    | fraction, exponent =>
      let places := fraction.getD []
      let (down, digits) := exponent.getD (false, ['0'])
      -- A power beyond any double is as good as a larger one.
      let e : Int := min (Number.decimalValue digits) (100000 + whole.length + places.length)
      let power : Int := (if down then -e else e) - places.length
      .ok (.float (Number.ofDecimal negative (Number.decimalValue (whole ++ places)) power), rest)

/-- The words that stand for values. -/
def words : List (String × Value) :=
  [("null", .none), ("true", .bool true), ("false", .bool false),
   ("NaN", .float Number.notANumber), ("Infinity", .float Number.infinity),
   ("-Infinity", .float (Number.withSign true Number.infinity))]

def readScalar (cs : List Char) : Except Failure (Value × List Char) :=
  match words.find? fun (word, _) => word.toList.isPrefixOf cs with
  | some (word, v) => .ok (v, cs.drop word.length)
  | none => readNumber cs

mutual

def readValue (fuel : Nat) (cs : List Char) : Except Failure (Value × List Char) :=
  match fuel with
  | 0 => .error (.at .expectedValue cs.length)
  | fuel + 1 =>
    match cs with
    | '"' :: rest => do
      let (s, rest) ← readText (rest.length + 1) cs.length [] rest
      return (.str s, rest)
    | '\x7b' :: rest =>
      match skipSpaces rest with
      | '\x7d' :: rest => .ok (.dict [], rest)
      | rest => do
        let (entries, rest) ← readEntries fuel [] rest
        return (Value.dictOf entries.reverse, rest)
    | '[' :: rest =>
      match skipSpaces rest with
      | ']' :: rest => .ok (.list [], rest)
      | rest => do
        let (items, rest) ← readItems fuel [] rest
        return (.list items.reverse, rest)
    | cs => readScalar cs

def readItems (fuel : Nat) (done : List Value) (cs : List Char) :
    Except Failure (List Value × List Char) :=
  match fuel with
  | 0 => .error (.at .expectedValue cs.length)
  | fuel + 1 => do
    let (v, rest) ← readValue fuel cs
    match skipSpaces rest with
    | ']' :: rest => return (v :: done, rest)
    | ',' :: rest => readItems fuel (v :: done) (skipSpaces rest)
    | rest => throw (.at .expectedComma rest.length)

def readEntries (fuel : Nat) (done : List (Value × Value)) (cs : List Char) :
    Except Failure (List (Value × Value) × List Char) :=
  match fuel with
  | 0 => .error (.at .expectedValue cs.length)
  | fuel + 1 =>
    match cs with
    | '"' :: rest => do
      let (name, rest) ← readText (rest.length + 1) cs.length [] rest
      match skipSpaces rest with
      | ':' :: rest => do
        let (v, rest) ← readValue fuel (skipSpaces rest)
        match skipSpaces rest with
        | '\x7d' :: rest => return ((.str name, v) :: done, rest)
        | ',' :: rest => readEntries fuel ((.str name, v) :: done) (skipSpaces rest)
        | rest => throw (.at .expectedComma rest.length)
      | rest => throw (.at .expectedColon rest.length)
    | cs => throw (.at .expectedName cs.length)

end

/-- Reads a text that holds one value. -/
def read (text : String) : Except Failure Value :=
  let cs := text.toList
  if cs.head? = some (Char.ofNat 0xfeff) then .error (.at .byteOrderMark cs.length)
  else do
    let (v, rest) ← readValue (2 * cs.length + 1) (skipSpaces cs)
    match skipSpaces rest with
    | [] => return v
    | rest => throw (.at .extraData rest.length)

/-- A place in a text, as its line, its column and its distance from the start. -/
def placeText (text : String) (position : Nat) : String :=
  let before := text.toList.take position
  let line := before.count '\n' + 1
  let column := (before.reverse.takeWhile (· ≠ '\n')).length + 1
  "line " ++ Number.natText line ++ " column " ++ Number.natText column ++ " (char " ++
    Number.natText position ++ ")"

/-- The wording of a failure to read a text. -/
def Failure.message (text : String) : Failure → String
  | .at problem left => problem.message ++ ": " ++ placeText text (text.length - left)
  | .tooManyDigits count =>
    "Exceeds the limit (4300 digits) for integer string conversion: value has " ++
      Number.natText count ++ " digits; use sys.set_int_max_str_digits() to increase the limit"

/-- The encodings of a JSON text, told apart by its first bytes. -/
inductive Encoding where
  | utf8 (mark : Bool)
  | utf16 (little mark : Bool)
  | utf32 (little mark : Bool)
  deriving Repr, DecidableEq, Inhabited

/-- The encoding of a JSON text: a byte order mark tells it, or else where the zero bytes are. -/
def encodingOf (data : List UInt8) : Encoding :=
  if [0, 0, 0xfe, 0xff].isPrefixOf data then .utf32 false true
  else if [0xff, 0xfe, 0, 0].isPrefixOf data then .utf32 true true
  else if [0xfe, 0xff].isPrefixOf data then .utf16 false true
  else if [0xff, 0xfe].isPrefixOf data then .utf16 true true
  else if [0xef, 0xbb, 0xbf].isPrefixOf data then .utf8 true
  else
    match data with
    | a :: b :: c :: d :: _ =>
      if a = 0 then if b ≠ 0 then .utf16 false false else .utf32 false false
      else if b = 0 then if c ≠ 0 ∨ d ≠ 0 then .utf16 true false else .utf32 true false
      else .utf8 false
    | [a, b] =>
      if a = 0 then .utf16 false false
      else if b = 0 then .utf16 true false
      else .utf8 false
    | _ => .utf8 false

/-- Why bytes are no JSON: they are no text, or the text is none. -/
inductive BytesFailure where
  | undecodable (error : Option Text.Utf8Error)
  | unreadable (text : String) (failure : Failure)

/-- The text of JSON bytes. -/
def decodeBytes (data : List UInt8) : Except BytesFailure String :=
  match encodingOf data with
  | .utf8 mark =>
    match Text.decodeUtf8 (if mark then data.drop 3 else data) with
    | .ok s => .ok s
    | .error e => .error (.undecodable (some e))
  | .utf16 little mark =>
    match Text.decodeUtf16 little (if mark then data.drop 2 else data) with
    | some s => .ok s
    | none => .error (.undecodable none)
  | .utf32 little mark =>
    match Text.decodeUtf32 little (if mark then data.drop 4 else data) with
    | some s => .ok s
    | none => .error (.undecodable none)

/-- Reads bytes that hold one value. A byte order mark inside the text is no blank. -/
def readBytes (data : List UInt8) : Except BytesFailure Value := do
  let text ← decodeBytes data
  let cs := text.toList
  let result : Except Failure Value := do
    let (v, rest) ← readValue (2 * cs.length + 1) (skipSpaces cs)
    match skipSpaces rest with
    | [] => return v
    | rest => throw (.at .extraData rest.length)
  match result with
  | .ok v => return v
  | .error e => throw (.unreadable text e)

end Workflow.Json
