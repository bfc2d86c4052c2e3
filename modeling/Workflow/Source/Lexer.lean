/-
Cutting a script into tokens.

Line structure becomes tokens too: a `newline` ends a logical line, and a
change of depth at the start of one gives an `indent` or some `dedent`s.
Inside brackets line ends are blanks. A text that cannot be cut further ends
in a `bad` token, so that a reader learns of it only where it gets there.
-/
import Workflow.Source.Numeral
import Workflow.Text.Letters
import Workflow.Text.Normal
import Workflow.Text.Printable

namespace Workflow.Source

/-- The open brackets and the depths of the open blocks, innermost first. A depth is counted twice:
with tabs up to the next multiple of eight, and with tabs as one column. -/
structure Layout where
  brackets : List Char
  depths : List (Nat × Nat)
  deriving Inhabited

namespace Layout

def start : Layout := ⟨[], [(0, 0)]⟩

/-- The most brackets that may be open. -/
def maxBrackets : Nat := 200

/-- The most depths that may be open, the outermost one counted. -/
def maxDepths : Nat := 100

/-- Closes blocks down to a depth; the number closed and the depths left. -/
def close (column : Nat) : List (Nat × Nat) → Nat × List (Nat × Nat)
  | [] => (0, [])
  | (c, t) :: rest =>
    if column < c then
      let (n, left) := close column rest
      (n + 1, left)
    else (0, (c, t) :: rest)

/-- The tokens with which a line at a depth begins. -/
def enterLine (l : Layout) (column narrow : Nat) : Except SourceError (List Token × Layout) :=
  match l.depths with
  | [] => .ok ([], l)
  | (c, t) :: _ =>
    if column = c then if narrow = t then .ok ([], l) else .error .tabs
    else if c < column then
      if maxDepths ≤ l.depths.length then .error .indentation
      else if narrow ≤ t then .error .tabs
      else .ok ([.indent], { l with depths := (column, narrow) :: l.depths })
    else
      let (closed, left) := close column l.depths
      match left with
      | (c, t) :: _ =>
        if column ≠ c then .error .indentation
        else if narrow ≠ t then .error .tabs
        else .ok (List.replicate closed .dedent, { l with depths := left })
      | [] => .error .indentation

end Layout

/-- Turns every spelling of a line end into one line feed. -/
def unifyLineEnds : List Char → List Char
  | [] => []
  | '\r' :: '\n' :: rest => '\n' :: unifyLineEnds rest
  | '\r' :: rest => '\n' :: unifyLineEnds rest
  | c :: rest => c :: unifyLineEnds rest

/-- Measures the blanks at the start of a line. A line end after a backslash is skipped, and the
depth is then that before the first such backslash, if it is not zero. Nothing when a backslash is
followed by anything else. -/
def measureBlanks (column narrow : Nat) (held : Option (Nat × Nat)) :
    List Char → Option (Nat × Nat × List Char)
  | ' ' :: rest => measureBlanks (column + 1) (narrow + 1) held rest
  | '\t' :: rest => measureBlanks ((column / 8 + 1) * 8) (narrow + 1) held rest
  | '\x0c' :: rest => measureBlanks 0 0 held rest
  | '\\' :: '\n' :: c :: rest =>
    let held := held.or (if column = 0 then none else some (column, narrow))
    measureBlanks column narrow held (c :: rest)
  | '\\' :: _ => none
  | cs =>
    let (column, narrow) := held.getD (column, narrow)
    some (column, narrow, cs)

/-- The characters up to the closing quote of a text in single quotes, and what follows it. -/
def shortBody (quote : Char) (done : List Char) : List Char → Option (List Char × List Char)
  | [] => none
  | '\\' :: c :: rest => shortBody quote (c :: '\\' :: done) rest
  | c :: rest =>
    if c = quote then some (done.reverse, rest)
    else if c = '\n' then none
    else shortBody quote (c :: done) rest

/-- The characters up to the closing quotes of a text in triple quotes, and what follows them. -/
def longBody (quote : Char) (done : List Char) : List Char → Option (List Char × List Char)
  | [] => none
  | '\\' :: c :: rest => longBody quote (c :: '\\' :: done) rest
  | c :: rest =>
    if c = quote ∧ [quote, quote].isPrefixOf rest then some (done.reverse, rest.drop 2)
    else longBody quote (c :: done) rest

/-- Reads a quoted text from its opening quote. -/
def readQuoted (quote : Char) (cs : List Char) : Option (List Char × List Char) :=
  if [quote, quote, quote].isPrefixOf cs then longBody quote [] (cs.drop 3)
  else shortBody quote [] (cs.drop 1)

/-- Whether letters may stand before the opening quote of a text: `r`, `b`, `u` and `f`, in either
case, of which `r` goes with `b` and with `f`. -/
def isTextMark (marks : List Char) : Bool :=
  let word := String.ofList (marks.map Char.toLower)
  ["", "r", "b", "u", "f", "rb", "br", "rf", "fr"].contains word

def quotationOf (marks body : List Char) : Quotation :=
  let lower := marks.map Char.toLower
  { raw := lower.contains 'r', bytes := lower.contains 'b', formatted := lower.contains 'f',
    marked := marks = ['u'], body }

/-- The signs of the grammar, longer ones first. -/
def signs : List String :=
  ["**=", "//=", ">>=", "<<=", "...", "==", "!=", "<=", ">=", "->", ":=", "+=", "-=", "*=", "/=",
   "%=", "&=", "|=", "^=", "@=", "**", "//", "<<", ">>", "<>", "+", "-", "*", "/", "%", "@", "&",
   "|", "^", "~", "<", ">", "=", ".", ",", ":", ";"]

/-- The first sign of the grammar that a text starts with. -/
def readSign (cs : List Char) : Option (String × List Char) :=
  (signs.find? fun s => s.toList.isPrefixOf cs).map fun s => (s, cs.drop s.length)

def closer? : Char → Option Char
  | '(' => some ')'
  | '[' => some ']'
  | '\x7b' => some '\x7d'
  | _ => none

def wordToken (word : List Char) : Option Token :=
  let text := String.ofList word
  if keywords.contains text then some (.keyword text)
  else
    match word with
    | c :: rest =>
      if Text.isIdentifierStart c && rest.all Text.isIdentifierPart then
        some (.name (String.ofList (Text.normalName word)))
      else none
    | [] => none

/-- What is read next: a token and the layout after it, with the characters that follow. -/
inductive Scanned where
  | token (t : Token) (layout : Layout) (rest : List Char)
  /-- Blanks or a comment. -/
  | skipped (rest : List Char)
  /-- A line end inside brackets. -/
  | continued (rest : List Char)
  | lineEnd (rest : List Char)
  | failed

/-- Reads one token inside a line. -/
def scanToken (l : Layout) : List Char → Scanned
  | [] => .failed
  | c :: rest =>
    let cs := c :: rest
    if c = ' ' ∨ c = '\t' ∨ c = '\x0c' then .skipped rest
    else if c = '#' then .skipped (rest.dropWhile (· ≠ '\n'))
    else if c = '\n' then if l.brackets.isEmpty then .lineEnd rest else .continued rest
    else if c = '\\' then
      match rest with
      | '\n' :: d :: rest => .skipped (d :: rest)
      | _ => .failed
    else if c = '"' ∨ c = '\'' then
      match readQuoted c cs with
      | some (body, rest) => .token (.text (quotationOf [] body)) l rest
      | none => .failed
    else if c.isAlpha || c = '_' || 0x80 ≤ c.toNat then
      let word := cs.takeWhile isNameChar
      let after := cs.dropWhile isNameChar
      match after with
      | q :: _ =>
        if (q = '"' ∨ q = '\'') ∧ isTextMark word then
          match readQuoted q after with
          | some (body, rest) => .token (.text (quotationOf word body)) l rest
          | none => .failed
        else
          match wordToken word with
          | some t => .token t l after
          | none => .failed
      | [] =>
        match wordToken word with
        | some t => .token t l after
        | none => .failed
    else if c.isDigit || (c = '.' && (rest.head?.map Char.isDigit).getD false) then
      match readNumber cs with
      | some (value, rest) => .token (.number value) l rest
      | none => .failed
    else
      match closer? c with
      | some close =>
        if Layout.maxBrackets ≤ l.brackets.length then .failed
        else .token (.sign (String.singleton c)) { l with brackets := close :: l.brackets } rest
      | none =>
        if c = ')' ∨ c = ']' ∨ c = '\x7d' then
          match l.brackets with
          | open_ :: brackets =>
            if open_ = c then .token (.sign (String.singleton c)) { l with brackets } rest
            else .failed
          | [] => .failed
        else
          match readSign cs with
          | some (s, rest) => .token (.sign s) l rest
          | none =>
            if Text.isPrintable c then .token (.sign (String.singleton c)) l rest else .failed

/-- Cuts a text into tokens; `fresh` at the start of a line. Every step takes a character or ends a
line start, so twice the length of the text is enough fuel. -/
def tokensFrom (fuel : Nat) (l : Layout) (fresh : Bool) (cs : List Char) : List Token :=
  match fuel with
  | 0 => [.bad .malformed]
  | fuel + 1 =>
    if fresh then
      match measureBlanks 0 0 none cs with
      | none => [.bad .malformed]
      | some (column, narrow, rest) =>
        if rest.head? = some '#' ∨ rest.head? = some '\n' then
          match rest.dropWhile (· ≠ '\n') with
          | _ :: rest => tokensFrom fuel l true rest
          | [] => tokensFrom fuel l false []
        else if !l.brackets.isEmpty then tokensFrom fuel l false rest
        else
          match l.enterLine column narrow with
          | .error cause => [.bad cause]
          | .ok (tokens, l) => tokens ++ tokensFrom fuel l false rest
    else
      match cs with
      | [] => if l.brackets.isEmpty then [.finish] else [.bad .malformed]
      | cs =>
        match scanToken l cs with
        | .token t l rest => t :: tokensFrom fuel l false rest
        | .skipped rest => tokensFrom fuel l false rest
        | .continued rest => tokensFrom fuel l true rest
        | .lineEnd rest => .newline :: tokensFrom fuel l true rest
        | .failed => [.bad .malformed]

/-- The tokens of a text in which line ends are single line feeds. -/
def tokens (cs : List Char) : List Token := tokensFrom (2 * cs.length + 3) .start true cs

/-- The tokens of a script, whose last line ends even where its end is left out. -/
def scriptTokens (text : List Char) : List Token :=
  let cs := unifyLineEnds text
  tokens (if cs.getLast? = some '\n' then cs else cs ++ ['\n'])

/-- The tokens of an expression that stands alone. -/
def expressionTokens (text : String) : List Token := tokens (unifyLineEnds text.toList)

end Workflow.Source
