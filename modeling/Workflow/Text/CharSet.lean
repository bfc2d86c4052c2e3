/-
Sets of characters, held as tables of code point ranges.

A table is written as text: blank-separated ranges in increasing order, each
as its distance from the end of the one before and the number of its further
members, in hexadecimal (`30-9 26` for `0` to `9` and the underscore).
Membership is a binary search over the ranges.
-/

namespace Workflow.Text

/-- The value of a hexadecimal digit of either case; zero for any other character. -/
def hexDigitValue (c : Char) : Nat :=
  if '0' ≤ c ∧ c ≤ '9' then c.toNat - 48
  else if 'a' ≤ c ∧ c ≤ 'f' then c.toNat - 87
  else if 'A' ≤ c ∧ c ≤ 'F' then c.toNat - 55
  else 0

def isHexDigit (c : Char) : Bool :=
  ('0' ≤ c ∧ c ≤ '9') ∨ ('a' ≤ c ∧ c ≤ 'f') ∨ ('A' ≤ c ∧ c ≤ 'F')

/-- The number that a run of hexadecimal digits denotes. -/
def hexValue (digits : List Char) : Nat :=
  digits.foldl (fun n c => 16 * n + hexDigitValue c) 0

/-- The entries of a table written as text, set apart by spaces and line ends. -/
def tableEntries (table : String) : List String :=
  ((table.splitOn "\n").flatMap (·.splitOn " ")).filter (· ≠ "")

/-- Reads the place of a range, `gap-more`. A gap of one, and no further members, are left out. -/
def readPlace (text : String) : Nat × Nat :=
  let gapOf (text : String) := if text = "" then 1 else hexValue text.toList
  match text.splitOn "-" with
  | [gap, more] => (gapOf gap, hexValue more.toList)
  | _ => (gapOf text, 0)

/-- A set of characters: disjoint inclusive ranges of code points, in increasing order. -/
structure CharSet where
  ranges : Array (Nat × Nat)
  deriving Inhabited

namespace CharSet

/-- Reads the ranges after a code point. -/
def readRanges (last : Nat) : List String → List (Nat × Nat)
  | [] => []
  | entry :: rest =>
    let (gap, more) := readPlace entry
    (last + gap, last + gap + more) :: readRanges (last + gap + more) rest

def ofText (table : String) : CharSet := ⟨(readRanges 0 (tableEntries table)).toArray⟩

/-- Whether one of the ranges at positions `lo ≤ i < hi` holds the code point `n`. -/
def search (ranges : Array (Nat × Nat)) (n lo hi : Nat) : Bool :=
  if lo < hi then
    let mid := (lo + hi) / 2
    match ranges[mid]? with
    | none => false
    | some (first, last) =>
      if n < first then search ranges n lo mid
      else if last < n then search ranges n (mid + 1) hi
      else true
  else false
termination_by hi - lo

def contains (s : CharSet) (c : Char) : Bool :=
  search s.ranges c.toNat 0 s.ranges.size

end CharSet

end Workflow.Text
