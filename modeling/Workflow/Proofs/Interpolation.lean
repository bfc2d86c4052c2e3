/-
A configuration without formulas is its own value: interpolation changes only
texts that hold a marker (`interpolateAll_eq`), so that an action is executed on
its interpolated configuration whether or not its handler interpolates
(`Step.props_eq`).
-/
import Workflow.Execution.Run

namespace Workflow

theorem interpolateText_eq (c : Context) {s : String} (h : hasMarker s = false) :
    interpolateText c s = .ok (.str s) := by
  simp [interpolateText, h]

mutual

theorem interpolateAll_eq (c : Context) : ∀ v : Value, hasFormula v = false →
    interpolateAll c v = .ok v
  | .str s, h => by
    rw [hasFormula] at h
    rw [interpolateAll, interpolateText_eq c h]
  | .dict entries, h => by
    rw [hasFormula] at h
    rw [interpolateAll, interpolateEntries_eq c entries h]
    rfl
  | .list items, h => by
    rw [hasFormula] at h
    rw [interpolateAll, interpolateItems_eq c items h]
    rfl
  | .none, _ | .bool _, _ | .int _, _ | .float _, _ | .complex _ _, _ | .bytes _, _ | .tuple _, _
  | .set _, _ | .view _ _, _ | .slice _ _ _, _ | .ellipsis, _ | .object _, _ => by
    simp only [interpolateAll]

theorem interpolateItems_eq (c : Context) : ∀ items : List Value, itemsHaveFormula items = false →
    interpolateItems c items = .ok items
  | [], _ => by rw [interpolateItems]
  | v :: rest, h => by
    simp only [itemsHaveFormula, Bool.or_eq_false_iff] at h
    rw [interpolateItems, interpolateAll_eq c v h.1, interpolateItems_eq c rest h.2]
    rfl

theorem interpolateEntries_eq (c : Context) : ∀ entries : List (Value × Value),
    entriesHaveFormula entries = false → interpolateEntries c entries = .ok entries
  | [], _ => by rw [interpolateEntries]
  | (k, v) :: rest, h => by
    simp only [entriesHaveFormula, Bool.or_eq_false_iff] at h
    rw [interpolateEntries, interpolateAll_eq c v h.1, interpolateEntries_eq c rest h.2]
    rfl

end

/-- The properties of a step whose configuration has a literal are the interpolated ones. -/
theorem Step.props_eq {s : Step} (h : s.config = .ok (Value.ofFields s.data)) (c : Context) :
    s.props c = interpolateAll c (Value.ofFields s.data) := by
  rw [Step.props, h]
  cases hf : hasFormula (Value.ofFields s.data) with
  | true => simp [bind, Except.bind, hf]
  | false => simp [bind, Except.bind, hf, interpolateAll_eq c _ hf, pure, Except.pure]

end Workflow
