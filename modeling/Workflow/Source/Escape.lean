/-
What the inside of a quoted text stands for, and how a formatted text is cut
into fixed pieces and values.
-/
import Workflow.Source.Token
import Workflow.Text.CharSet

namespace Workflow.Source

/-- The character of a code point; a code point that is no character gives the replacement
character. -/
def codeChar? (n : Nat) : Option Char :=
  if 0x10ffff < n then none
  else if n.isValidChar then some (Char.ofNat n)
  else some (Char.ofNat 0xfffd)

/-- Splits off exactly `n` hexadecimal digits and gives their value. -/
def takeHex (n : Nat) (cs : List Char) : Option (Nat × List Char) :=
  let digits := cs.take n
  if digits.length = n ∧ digits.all Text.isHexDigit then
    some (Text.hexValue digits, cs.drop n)
  else none

def isOctal (c : Char) : Bool := '0' ≤ c ∧ c ≤ '7'

/-- Splits off one to three octal digits and gives their value. -/
def takeOctal (cs : List Char) : Nat × List Char :=
  let digits := (cs.take 3).takeWhile isOctal
  (digits.foldl (fun n c => 8 * n + (c.toNat - 48)) 0, cs.drop digits.length)

/-- The character of an escape of one letter. -/
def letterEscape? : Char → Option Char
  | '\\' => some '\\'
  | '\'' => some '\''
  | '"' => some '"'
  | 'a' => some (Char.ofNat 7)
  | 'b' => some (Char.ofNat 8)
  | 'f' => some (Char.ofNat 12)
  | 'n' => some '\n'
  | 'r' => some '\r'
  | 't' => some '\t'
  | 'v' => some (Char.ofNat 11)
  | _ => none

/-- Resolves the escapes of a text; `fuel` is at least its length. Nothing when one is cut short,
too large or a name. -/
def resolveText (fuel : Nat) (cs : List Char) : Option (List Char) :=
  match fuel, cs with
  | _, [] => some []
  | 0, _ => none
  | fuel + 1, '\\' :: c :: rest =>
    let coded (n : Nat) : Option (List Char) := do
      let (code, rest) ← takeHex n rest
      let c ← codeChar? code
      (resolveText fuel rest).map (c :: ·)
    match letterEscape? c with
    | some e => (resolveText fuel rest).map (e :: ·)
    | none =>
      if c = '\n' then resolveText fuel rest
      else if isOctal c then
        let (code, rest) := takeOctal (c :: rest)
        (resolveText fuel rest).map (Char.ofNat code :: ·)
      else if c = 'x' then coded 2
      else if c = 'u' then coded 4
      else if c = 'U' then coded 8
      else if c = 'N' then none
      else (resolveText fuel rest).map ('\\' :: c :: ·)
  | fuel + 1, c :: rest => (resolveText fuel rest).map (c :: ·)

/-- Resolves the escapes of a byte string; `fuel` is at least its length. -/
def resolveBytes (fuel : Nat) (cs : List Char) : Option (List UInt8) :=
  match fuel, cs with
  | _, [] => some []
  | 0, _ => none
  | fuel + 1, '\\' :: c :: rest =>
    match letterEscape? c with
    | some e => (resolveBytes fuel rest).map (e.toNat.toUInt8 :: ·)
    | none =>
      if c = '\n' then resolveBytes fuel rest
      else if isOctal c then
        let (code, rest) := takeOctal (c :: rest)
        (resolveBytes fuel rest).map (code.toUInt8 :: ·)
      else if c = 'x' then do
        let (code, rest) ← takeHex 2 rest
        (resolveBytes fuel rest).map (code.toUInt8 :: ·)
      else (resolveBytes fuel rest).map ('\\'.toNat.toUInt8 :: c.toNat.toUInt8 :: ·)
  | fuel + 1, c :: rest => (resolveBytes fuel rest).map (c.toNat.toUInt8 :: ·)

/-- The text that stands between quotes. -/
def textOf (raw : Bool) (body : List Char) : Option String :=
  if raw then some (String.ofList body)
  else (resolveText body.length body).map String.ofList

/-- The bytes that stand between quotes. -/
def bytesOf (raw : Bool) (body : List Char) : Option (List UInt8) :=
  if body.any fun c => 0x80 ≤ c.toNat then none
  else if raw then some (body.map fun c => c.toNat.toUInt8)
  else resolveBytes body.length body

/-- A piece of a formatted text as written: a fixed text, or the text of an expression with its
conversion and format. -/
inductive RawPiece where
  | text (content : String)
  | value (expr : List Char) (conversion : Option Conversion) (spec : Option (List RawPiece))

inductive PieceEnd where
  | finished
  /-- At a doubled brace, which stands for one. -/
  | doubled (rest : List Char)
  | opening (rest : List Char)
  | closing (rest : List Char)

/-- Ends a fixed piece, held reversed, at a brace. Inside a format, braces are not doubled. Nothing
at a closing brace that closes nothing. -/
def pieceEnd (nested : Bool) (done : List Char) (c : Char) (rest : List Char) :
    Option (List Char × PieceEnd) :=
  if !nested ∧ rest.head? = some c then some ((c :: done).reverse, .doubled rest.tail)
  else if c = '\x7b' then some (done.reverse, .opening rest)
  else if nested then some (done.reverse, .closing rest)
  else none

/-- Reads a fixed piece up to the next brace; `done` holds it reversed, escapes still in place. -/
def fixedPiece (nested : Bool) (done : List Char) : List Char → Option (List Char × PieceEnd)
  | [] => some (done.reverse, .finished)
  | '\\' :: c :: rest =>
    if c = '\x7b' ∨ c = '\x7d' then pieceEnd nested ('\\' :: done) c rest
    else fixedPiece nested (c :: '\\' :: done) rest
  | c :: rest =>
    if c = '\x7b' ∨ c = '\x7d' then pieceEnd nested done c rest
    else fixedPiece nested (c :: done) rest

/-- Where the reading of a value's text stands: outside quotes, inside them, or at further
characters of a quote or sign that has been recognised. -/
inductive ValueState where
  | plain
  | quoted (quote : Char) (long : Bool)
  | ahead (count : Nat) (next : Option (Char × Bool))

/-- The state that follows a recognised quote or sign. -/
def ValueState.after : Option (Char × Bool) → ValueState
  | none => .plain
  | some (quote, long) => .quoted quote long

/-- Reads the text of an expression up to what ends it: a brace, a colon, a conversion or a single
equals sign outside brackets and quotes. Nothing when it holds a backslash or a comment, or when its
brackets or quotes do not match. -/
def valueText (state : ValueState) (brackets done : List Char) :
    List Char → Option (List Char × List Char)
  | [] => none
  | c :: rest =>
    if c = '\\' then none
    else
      match state with
      | .ahead (n + 2) next => valueText (.ahead (n + 1) next) brackets (c :: done) rest
      | .ahead _ next => valueText (.after next) brackets (c :: done) rest
      | .quoted q long =>
        if c ≠ q then valueText state brackets (c :: done) rest
        else if !long then valueText .plain brackets (c :: done) rest
        else if [q, q].isPrefixOf rest then valueText (.ahead 2 none) brackets (c :: done) rest
        else valueText state brackets (c :: done) rest
      | .plain =>
        if c = '\'' ∨ c = '"' then
          if [c, c].isPrefixOf rest then
            valueText (.ahead 2 (some (c, true))) brackets (c :: done) rest
          else valueText (.quoted c false) brackets (c :: done) rest
        else if c = '(' then valueText .plain (')' :: brackets) (c :: done) rest
        else if c = '[' then valueText .plain (']' :: brackets) (c :: done) rest
        else if c = '\x7b' then valueText .plain ('\x7d' :: brackets) (c :: done) rest
        else if c = '#' then none
        else
          match brackets with
          | close :: outer =>
            if c = close then valueText .plain outer (c :: done) rest
            else if c = ')' ∨ c = ']' ∨ c = '\x7d' then none
            else valueText .plain (close :: outer) (c :: done) rest
          | [] =>
            if c = ')' ∨ c = ']' then none
            else if c = '\x7d' ∨ c = ':' then some (done.reverse, c :: rest)
            else if c = '!' ∨ c = '=' ∨ c = '<' ∨ c = '>' then
              if rest.head? = some '=' then valueText (.ahead 1 none) [] (c :: done) rest
              else if c = '<' ∨ c = '>' then valueText .plain [] (c :: done) rest
              else some (done.reverse, c :: rest)
            else valueText .plain [] (c :: done) rest

def conversion? : Char → Option Conversion
  | 's' => some .text
  | 'r' => some .literal
  | 'a' => some .ascii
  | _ => none

/-- A blank inside the braces of a formatted text. -/
def isInnerBlank (c : Char) : Bool := c = ' ' || c = '\t' || c = '\n' || c = Char.ofNat 12

/-- A blank after the equals sign of a value that shows its own text. -/
def isAfterBlank (c : Char) : Bool := isInnerBlank c || c = '\r' || c = Char.ofNat 11

/-- A fixed piece, left out when it is empty. -/
def fixedPieces (raw : Bool) (body : List Char) : Option (List RawPiece) :=
  if body.isEmpty then some [] else (textOf raw body).map fun s => [.text s]

/-- The conversion after the text of a value, if there is one, and the rest. -/
def takeConversion : List Char → Option (Option Conversion × List Char)
  | '!' :: c :: rest => (conversion? c).map fun k => (some k, rest)
  | ['!'] => none
  | cs => some (none, cs)

/-- Cuts a formatted text into pieces; `depth` formats may still be nested. At the outermost level
the whole text is read, inside a format everything up to its closing brace. -/
def rawPieces (depth : Nat) (raw nested : Bool) (fuel : Nat) (cs : List Char) :
    Option (List RawPiece × List Char) :=
  match fuel with
  | 0 => none
  | fuel + 1 => do
    let (body, stop) ← fixedPiece nested [] cs
    let before ← fixedPieces raw body
    match stop with
    | .finished => if nested then none else some (before, [])
    | .closing rest => some (before, '\x7d' :: rest)
    | .doubled rest => do
      let (after, rest) ← rawPieces depth raw nested fuel rest
      some (before ++ after, rest)
    | .opening rest =>
      match depth with
      | 0 => none
      | depth + 1 => do
        let (expr, rest) ← valueText .plain [] [] rest
        if expr.all isInnerBlank then none
        let (shown, rest) : Option String × List Char := match rest with
          | '=' :: rest =>
            let blanks := rest.takeWhile isAfterBlank
            (some (String.ofList (expr ++ '=' :: blanks)), rest.dropWhile isAfterBlank)
          | rest => (none, rest)
        let (conversion, rest) ← takeConversion rest
        let (spec, rest) ← match rest with
          | ':' :: rest => do
            let (spec, rest) ← rawPieces depth raw true fuel rest
            some (some spec, rest)
          | rest => some (none, rest)
        match rest with
        | '\x7d' :: rest => do
          let conversion :=
            if shown.isSome ∧ spec.isNone ∧ conversion.isNone then some .literal else conversion
          let own := match shown with
            | some s => [.text s]
            | none => []
          let (after, rest) ← rawPieces (depth + 1) raw nested fuel rest
          some (before ++ own ++ .value expr conversion spec :: after, rest)
        | _ => none

/-- The pieces of a formatted text. Formats may nest once. -/
def formatPieces (raw : Bool) (body : List Char) : Option (List RawPiece) :=
  (rawPieces 2 raw false (body.length + 1) body).map (·.1)

/-- Neighbouring fixed pieces made one. -/
def mergeFixed : List RawPiece → List RawPiece
  | .text a :: rest =>
    match mergeFixed rest with
    | .text b :: rest => .text (a ++ b) :: rest
    | rest => .text a :: rest
  | piece :: rest => piece :: mergeFixed rest
  | [] => []

end Workflow.Source
