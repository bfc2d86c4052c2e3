/-
Finding, counting, replacing and splitting at occurrences of one text in
another, left to right and without overlaps.
-/
import Workflow.Text.Blank

namespace Workflow.Text

/-- The characters before the first occurrence of `needle`, and those after it. -/
def cutAt (needle : List Char) (before : List Char) : List Char → Option (List Char × List Char)
  | [] => if needle.isEmpty then some (before.reverse, []) else none
  | c :: rest =>
    if needle.isPrefixOf (c :: rest) then some (before.reverse, (c :: rest).drop needle.length)
    else cutAt needle (c :: before) rest

/-- The place of the first occurrence of `needle`, counted from `place`. -/
def indexFrom (needle : List Char) (place : Nat) : List Char → Option Nat
  | [] => if needle.isEmpty then some place else none
  | c :: rest =>
    if needle.isPrefixOf (c :: rest) then some place else indexFrom needle (place + 1) rest

def contains (needle cs : List Char) : Bool := (indexFrom needle 0 cs).isSome

/-- The parts of a text between occurrences of a non-empty separator; at most `limit` cuts. -/
def splitAt (separator : List Char) : Nat → List Char → List (List Char)
  | 0, cs => [cs]
  | limit + 1, cs =>
    match cutAt separator [] cs with
    | none => [cs]
    | some (part, rest) => part :: splitAt separator limit rest

/-- The words of a text, at most `limit` of them split off; the rest keeps its trailing blanks. -/
def splitWords : Nat → List Char → List (List Char)
  | 0, cs =>
    let rest := cs.dropWhile isBlank
    if rest.isEmpty then [] else [rest]
  | limit + 1, cs =>
    let start := cs.dropWhile isBlank
    if start.isEmpty then []
    else (start.takeWhile (!isBlank ·)) :: splitWords limit (start.dropWhile (!isBlank ·))

/-- Puts `new` before each of the first `limit` characters, and at the end if the limit allows. -/
def interleave (new : List Char) : Nat → List Char → List Char
  | 0, cs => cs
  | _ + 1, [] => new
  | limit + 1, c :: rest => new ++ c :: interleave new limit rest

/-- Replaces the first `limit` occurrences of `old`; an empty one occurs before every character and
at the end. -/
def replaceAt (old new : List Char) (limit : Nat) (cs : List Char) : List Char :=
  if old.isEmpty then interleave new limit cs
  else new.intercalate (splitAt old limit cs)

/-- The number of occurrences of a text in another; an empty one occurs around every character. -/
def occurrences (needle cs : List Char) : Nat :=
  if needle.isEmpty then cs.length + 1 else (splitAt needle cs.length cs).length - 1

end Workflow.Text
