/-
Writing indented lines, counting the statements among them.
-/
import Workflow.Text.Blank

namespace Workflow.Handler

/-- The lines written so far, the level of indentation, and how many statements are among them. -/
structure Writer where
  lines : Array String := #[]
  level : Nat := 0
  statements : Nat := 0
  deriving Repr, DecidableEq, Inhabited

namespace Writer

/-- The blanks of a level of indentation. -/
def margin (level : Nat) : String := String.ofList (List.replicate (4 * level) ' ')

def isComment (line : String) : Bool := (line.toList.dropWhile Text.isBlank).head? = some '#'

/-- Writes a line. An empty one gets no margin, and neither it nor a comment is a statement. -/
def write (w : Writer) (line : String) : Writer :=
  if line.isEmpty then { w with lines := w.lines.push "" }
  else
    { w with lines := w.lines.push (margin w.level ++ line),
             statements := if isComment line then w.statements else w.statements + 1 }

/-- Leaves a line free, unless that is so already or nothing is written yet. -/
def blank (w : Writer) : Writer :=
  match w.lines.back? with
  | some last => if last.isEmpty then w else { w with lines := w.lines.push "" }
  | none => w

def comment (w : Writer) (text : String) : Writer := w.write ("# " ++ Text.singleLine text)

def push (w : Writer) : Writer := { w with level := w.level + 1 }

def pop (w : Writer) : Writer := { w with level := w.level - 1 }

/-- Adds the lines of another writer as they are. -/
def extend (w other : Writer) : Writer :=
  { w with lines := w.lines ++ other.lines, statements := w.statements + other.statements }

def writeAll (w : Writer) (lines : List String) : Writer := lines.foldl write w

def indented (w : Writer) (body : Writer → Writer) : Writer := (body w.push).pop

def text (w : Writer) : String := "\n".intercalate w.lines.toList

end Writer

end Workflow.Handler
