/-
Blank characters and what is cut at them: trimming a text and splitting it
into words.

A character is blank when the character database calls it white space or gives
it a separating direction (B, S or WS), so the four information separators
U+001C to U+001F count.
-/

namespace Workflow.Text

def isBlank (c : Char) : Bool :=
  let n := c.toNat
  (9 ≤ n ∧ n ≤ 13) ∨ (28 ≤ n ∧ n ≤ 32) ∨ n = 0x85 ∨ n = 0xa0 ∨ n = 0x1680 ∨
    (0x2000 ≤ n ∧ n ≤ 0x200a) ∨ n = 0x2028 ∨ n = 0x2029 ∨ n = 0x202f ∨ n = 0x205f ∨ n = 0x3000

/-- Drops the trailing characters that satisfy `p`. -/
def dropTrailing (p : Char → Bool) (cs : List Char) : List Char :=
  (cs.reverse.dropWhile p).reverse

/-- Drops the characters that satisfy `p` at both ends. -/
def trimWhere (p : Char → Bool) (s : String) : String :=
  String.ofList (dropTrailing p (s.toList.dropWhile p))

/-- Drops the leading characters that satisfy `p`. -/
def trimStartWhere (p : Char → Bool) (s : String) : String :=
  String.ofList (s.toList.dropWhile p)

/-- Drops the trailing characters that satisfy `p`. -/
def trimEndWhere (p : Char → Bool) (s : String) : String :=
  String.ofList (dropTrailing p s.toList)

def trim (s : String) : String := trimWhere isBlank s

/-- Whether every character is blank; the empty text is. -/
def allBlank (s : String) : Bool := s.toList.all isBlank

/-- The maximal blank-free runs of a text, in order; `current` is the run being read, reversed. -/
def wordsFrom (current : List Char) : List Char → List (List Char)
  | [] => if current.isEmpty then [] else [current.reverse]
  | c :: rest =>
    if isBlank c then
      if current.isEmpty then wordsFrom [] rest else current.reverse :: wordsFrom [] rest
    else wordsFrom (c :: current) rest

def words (s : String) : List String :=
  (wordsFrom [] s.toList).map String.ofList

/-- A text made one line: runs of blanks become one space, and those at the ends go. -/
def singleLine (s : String) : String := " ".intercalate (words s)

end Workflow.Text
