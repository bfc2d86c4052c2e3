/-
The lines of a text.
-/

namespace Workflow.Text

def isLineEnd (c : Char) : Bool :=
  let n := c.toNat
  (0x0a ≤ n && n ≤ 0x0d) || (0x1c ≤ n && n ≤ 0x1e) || n = 0x85 || n = 0x2028 || n = 0x2029

/-- The lines of a text with their ends, a return and a feed being one end; `current` is the line
being read, reversed. -/
def linesFrom (current : List Char) : List Char → List (List Char)
  | [] => if current.isEmpty then [] else [current.reverse]
  | '\r' :: '\n' :: rest => ('\n' :: '\r' :: current).reverse :: linesFrom [] rest
  | c :: rest =>
    if isLineEnd c then (c :: current).reverse :: linesFrom [] rest
    else linesFrom (c :: current) rest

def lines (s : String) : List String := (linesFrom [] s.toList).map String.ofList

end Workflow.Text
