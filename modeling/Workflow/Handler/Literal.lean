/-
The literal of a configuration, laid out over lines.

What fits stays on one line. A dictionary or a list that does not fit has each
item on a line of its own, under the first. A long text is cut after its line
ends, and within a line after blanks, into literals below each other, which
read as one text.
-/
import Workflow.Text.Blank
import Workflow.Text.Lines
import Workflow.Value.Text

namespace Workflow.Handler

def lineWidth : Nat := 88

/-- The words of a line, each with the blanks that follow it; `current` is the word being read,
reversed. -/
def wordsWithBlanks (current : List Char) : List Char → List (List Char)
  | [] => if current.isEmpty then [] else [current.reverse]
  | c :: rest =>
    let afterBlank := (current.head?.map Text.isBlank).getD false
    if afterBlank && !Text.isBlank c then current.reverse :: wordsWithBlanks [c] rest
    else wordsWithBlanks (c :: current) rest

/-- Puts words together into pieces whose literals fit into the width; on the last line the last
word has `allowance` less. -/
def packWords (width allowance : Int) (current : List Char) : List (List Char) → List String
  | [] => if current.isEmpty then [] else [Text.quoted (String.ofList current)]
  | word :: rest =>
    let candidate := current ++ word
    let room := if rest.isEmpty then width - allowance else width
    if (Text.quoted (String.ofList candidate)).length > room then
      (if current.isEmpty then [] else [Text.quoted (String.ofList current)]) ++
        packWords width allowance word rest
    else packWords width allowance candidate rest

/-- The literals of the lines of a text, each cut into pieces if it does not fit. -/
def packLines (width allowance : Int) : List String → List String
  | [] => []
  | line :: rest =>
    let allowance' := if rest.isEmpty then allowance else 0
    let whole := Text.quoted line
    (if whole.length ≤ width - allowance' then [whole]
      else packWords width allowance' [] (wordsWithBlanks [] line.toList)) ++
      packLines width allowance rest

/-- A line end, and the blanks to a column. -/
def newLine (column : Nat) : String := "\n" ++ String.ofList (List.replicate column ' ')

/-- The literal of a text that starts in a column, with room for what follows it. -/
def layoutText (column allowance : Nat) (s : String) : String :=
  (newLine column).intercalate (packLines (lineWidth - column) allowance (Text.lines s))

mutual

/-- The literal of a value that starts in a column, with room for what follows it. -/
def layout (column allowance : Nat) : Value → String
  | .dict entries =>
    let whole := (Value.dict entries).literal
    if whole.length + column + allowance ≤ lineWidth then whole
    else "\x7b" ++ layoutEntries (column + 1) (allowance + 1) entries ++ "\x7d"
  | .list items =>
    let whole := (Value.list items).literal
    if whole.length + column + allowance ≤ lineWidth then whole
    else "[" ++ layoutItems (column + 1) (allowance + 1) items ++ "]"
  | .str s =>
    let whole := Text.quoted s
    if s.isEmpty || whole.length + column + allowance ≤ lineWidth then whole
    else layoutText column allowance s
  | v => v.literal
termination_by structural v => v

/-- The items of a list below each other. -/
def layoutItems (column allowance : Nat) : List Value → String
  | [] => ""
  | [v] => layout column allowance v
  | v :: rest => layout column 1 v ++ "," ++ newLine column ++ layoutItems column allowance rest
termination_by structural vs => vs

/-- The entries of a dictionary below each other. -/
def layoutEntries (column allowance : Nat) : List (Value × Value) → String
  | [] => ""
  | [(k, v)] =>
    let key := k.literal
    key ++ ": " ++ layout (column + key.length + 2) allowance v
  | (k, v) :: rest =>
    let key := k.literal
    key ++ ": " ++ layout (column + key.length + 2) 1 v ++ "," ++ newLine column ++
      layoutEntries column allowance rest
termination_by structural es => es

end

/-- The lines of the literal of a configuration. -/
def literalLines (data : Names) : List String :=
  ((layout 0 0 (Value.ofFields data)).toList.splitOn '\n').map String.ofList

end Workflow.Handler
