/-
Which parts of a configuration hold formulas.
-/
import Workflow.Text.Search
import Workflow.Value.Basic

namespace Workflow

/-- Whether a text holds a pair of opening braces, which mark a formula. -/
def hasMarker (s : String) : Bool := Text.contains "\x7b\x7b".toList s.toList

def isInterpolated : Value → Bool
  | .str s => hasMarker s
  | _ => false

mutual

/-- Whether a configuration holds formulas in its dictionaries and lists. -/
def hasFormula : Value → Bool
  | .str s => hasMarker s
  | .dict entries => entriesHaveFormula entries
  | .list items => itemsHaveFormula items
  | _ => false
termination_by structural v => v

def itemsHaveFormula : List Value → Bool
  | [] => false
  | v :: rest => hasFormula v || itemsHaveFormula rest
termination_by structural vs => vs

def entriesHaveFormula : List (Value × Value) → Bool
  | [] => false
  | (_, v) :: rest => hasFormula v || entriesHaveFormula rest
termination_by structural es => es

end

end Workflow
