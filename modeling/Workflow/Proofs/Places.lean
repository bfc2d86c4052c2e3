/-
Which places of a configuration interpolation changes.

A place is given by the positions of the parts to go into (`Value.at?`).
Interpolation works at every place on its own (`interpolateAll_at`), and the test
for formulas looks at the same places (`hasFormula_iff_at`). So a configuration
without formulas stays as it is, and of any other one only the texts with a
marker are replaced (`interpolation_keeps`).
-/
import Mathlib
import Workflow.Proofs.Continuations
import Workflow.Proofs.Interpolation

namespace Workflow

open Handler (bind_eq_ok)

namespace Value

/-- The parts of a configuration: the values of a dictionary, or the items of a list. -/
def parts : Value → List Value
  | .dict entries => entries.map (·.2)
  | .list items => items
  | _ => []

/-- What stands at a place of a configuration. -/
def at? : List Nat → Value → Option Value
  | [], v => some v
  | i :: place, v => v.parts[i]?.bind (at? place)

/-- A value without parts of its own, which may be a text with formulas. -/
def IsLeaf (v : Value) : Prop := (∀ entries, v ≠ .dict entries) ∧ ∀ items, v ≠ .list items

variable {v x u : Value} {place : List Nat} {i : Nat}

theorem sizeOf_lt_of_mem_parts (h : x ∈ v.parts) : sizeOf x < sizeOf v := by
  cases v with
  | dict entries =>
    obtain ⟨⟨key, value⟩, he, rfl⟩ := List.mem_map.mp h
    have hlt := List.sizeOf_lt_of_mem he
    simp only [Prod.mk.sizeOf_spec, dict.sizeOf_spec] at hlt ⊢
    omega
  | list items =>
    have hlt : sizeOf x < sizeOf items := List.sizeOf_lt_of_mem h
    simp only [list.sizeOf_spec]
    omega
  | _ => cases h

/-- What holds of a configuration whenever it holds of its parts holds of every one. -/
theorem induction_parts {P : Value → Prop} (h : ∀ v, (∀ x ∈ v.parts, P x) → P v) (v : Value) :
    P v := h v fun x _hx => induction_parts h x
termination_by sizeOf v
decreasing_by exact sizeOf_lt_of_mem_parts _hx

theorem at?_cons : at? (i :: place) v = some u ↔
    ∃ x, v.parts[i]? = some x ∧ at? place x = some u := Option.bind_eq_some_iff

theorem at?_of_mem_parts (hx : x ∈ v.parts) (hu : at? place x = some u) :
    ∃ i, at? (i :: place) v = some u := by
  obtain ⟨i, hi⟩ := List.mem_iff_getElem?.mp hx
  exact ⟨i, at?_cons.mpr ⟨x, hi, hu⟩⟩

end Value

/-! ## Formulas at places -/

theorem itemsHaveFormula_iff {items : List Value} :
    itemsHaveFormula items = true ↔ ∃ x ∈ items, hasFormula x = true := by
  induction items with
  | nil => simp [itemsHaveFormula]
  | cons v rest ih => simp [itemsHaveFormula, ih]

theorem entriesHaveFormula_iff {entries : List (Value × Value)} :
    entriesHaveFormula entries = true ↔ ∃ x ∈ entries.map (·.2), hasFormula x = true := by
  induction entries with
  | nil => simp [entriesHaveFormula]
  | cons e rest ih => simp [entriesHaveFormula, ih]

theorem hasFormula_iff_parts {v : Value} :
    hasFormula v = true ↔ isInterpolated v = true ∨ ∃ x ∈ v.parts, hasFormula x = true := by
  cases v <;>
    simp [hasFormula, isInterpolated, Value.parts, itemsHaveFormula_iff, entriesHaveFormula_iff]

/-- A configuration holds formulas if a text with a marker stands at some place. -/
theorem hasFormula_iff_at {v : Value} : hasFormula v = true ↔
    ∃ place s, Value.at? place v = some (.str s) ∧ hasMarker s = true := by
  induction v using Value.induction_parts with
  | h v ih =>
    rw [hasFormula_iff_parts]
    constructor
    · rintro (hv | ⟨x, hx, hformula⟩)
      · cases v with
        | str s => exact ⟨[], s, rfl, hv⟩
        | _ => cases hv
      · obtain ⟨place, s, hat, hs⟩ := (ih x hx).mp hformula
        obtain ⟨i, hat⟩ := Value.at?_of_mem_parts hx hat
        exact ⟨i :: place, s, hat, hs⟩
    · rintro ⟨place, s, hat, hs⟩
      cases place with
      | nil =>
        obtain rfl := Option.some.inj hat
        exact .inl hs
      | cons i place =>
        obtain ⟨x, hx, hat⟩ := Value.at?_cons.mp hat
        have hmem := List.mem_of_getElem? hx
        exact .inr ⟨x, hmem, (ih x hmem).mpr ⟨place, s, hat, hs⟩⟩

/-! ## Interpolation at places -/

section

variable {c : Context} {v w u : Value}

theorem interpolateItems_ok : ∀ {items items' : List Value},
    interpolateItems c items = .ok items' →
      List.Forall₂ (fun x y => interpolateAll c x = .ok y) items items'
  | [], _, h => by
    rw [interpolateItems] at h
    cases h
    exact .nil
  | v :: rest, _, h => by
    rw [interpolateItems] at h
    obtain ⟨w, hw, h⟩ := bind_eq_ok.mp h
    obtain ⟨ws, hws, h⟩ := bind_eq_ok.mp h
    cases h
    exact .cons hw (interpolateItems_ok hws)

theorem interpolateEntries_ok : ∀ {entries entries' : List (Value × Value)},
    interpolateEntries c entries = .ok entries' →
      entries'.map (·.1) = entries.map (·.1) ∧
      List.Forall₂ (fun x y => interpolateAll c x = .ok y) (entries.map (·.2)) (entries'.map (·.2))
  | [], _, h => by
    rw [interpolateEntries] at h
    cases h
    exact ⟨rfl, .nil⟩
  | (key, v) :: rest, _, h => by
    rw [interpolateEntries] at h
    obtain ⟨w, hw, h⟩ := bind_eq_ok.mp h
    obtain ⟨entries', hrest, h⟩ := bind_eq_ok.mp h
    cases h
    obtain ⟨hkeys, hvalues⟩ := interpolateEntries_ok hrest
    exact ⟨by simp [hkeys], .cons hw hvalues⟩

/-- What has parts keeps its form, and is interpolated part by part. -/
theorem interpolateAll_dict {entries : List (Value × Value)}
    (h : interpolateAll c (.dict entries) = .ok w) :
    ∃ entries', w = .dict entries' ∧ entries'.map (·.1) = entries.map (·.1) ∧
      List.Forall₂ (fun x y => interpolateAll c x = .ok y) (Value.dict entries).parts w.parts := by
  rw [interpolateAll] at h
  obtain ⟨entries', hentries, h⟩ := bind_eq_ok.mp h
  cases h
  exact ⟨entries', rfl, interpolateEntries_ok hentries⟩

theorem interpolateAll_list {items : List Value} (h : interpolateAll c (.list items) = .ok w) :
    ∃ items', w = .list items' ∧
      List.Forall₂ (fun x y => interpolateAll c x = .ok y) (Value.list items).parts w.parts := by
  rw [interpolateAll] at h
  obtain ⟨items', hitems, h⟩ := bind_eq_ok.mp h
  cases h
  exact ⟨items', rfl, interpolateItems_ok hitems⟩

/-- What is no text with a marker and has no parts stays as it is. -/
theorem interpolateAll_leaf (hleaf : v.IsLeaf) (hv : isInterpolated v = false) :
    interpolateAll c v = .ok v := by
  cases v with
  | dict entries => exact absurd rfl (hleaf.1 entries)
  | list items => exact absurd rfl (hleaf.2 items)
  | str s => exact interpolateAll_eq c (.str s) (by rw [hasFormula]; exact hv)
  | _ => exact interpolateAll_eq c _ (by simp [hasFormula])

theorem interpolateAll_parts (h : interpolateAll c v = .ok w) (hv : v.parts ≠ []) :
    List.Forall₂ (fun x y => interpolateAll c x = .ok y) v.parts w.parts := by
  cases v with
  | dict entries =>
    obtain ⟨-, -, -, hparts⟩ := interpolateAll_dict h
    exact hparts
  | list items =>
    obtain ⟨-, -, hparts⟩ := interpolateAll_list h
    exact hparts
  | _ => exact absurd rfl hv

/-- Interpolation works at every place on its own. -/
theorem interpolateAll_at {place : List Nat} (h : interpolateAll c v = .ok w)
    (hu : Value.at? place v = some u) :
    ∃ u', Value.at? place w = some u' ∧ interpolateAll c u = .ok u' := by
  induction place generalizing v w with
  | nil =>
    obtain rfl := Option.some.inj hu
    exact ⟨w, rfl, h⟩
  | cons i place ih =>
    obtain ⟨x, hx, hu⟩ := Value.at?_cons.mp hu
    have hparts := interpolateAll_parts h (List.ne_nil_of_mem (List.mem_of_getElem? hx))
    obtain ⟨hi, rfl⟩ := List.getElem?_eq_some_iff.mp hx
    have hi' : i < w.parts.length := hparts.length_eq ▸ hi
    obtain ⟨u', hat, hu'⟩ := ih (hparts.get hi hi') hu
    exact ⟨u', Value.at?_cons.mpr ⟨_, List.getElem?_eq_getElem hi', hat⟩, hu'⟩

/-! ## Failures at places -/

theorem bind_eq_error {α β : Type} {x : Attempt α} {f : α → Attempt β} {e : Raised} :
    x >>= f = .error e ↔ x = .error e ∨ ∃ a, x = .ok a ∧ f a = .error e := by
  cases x <;> simp [bind, Except.bind]

theorem interpolateItems_error {e : Raised} : ∀ {items : List Value},
    interpolateItems c items = .error e → ∃ x ∈ items, interpolateAll c x = .error e
  | [], h => by
    rw [interpolateItems] at h
    cases h
  | v :: rest, h => by
    rw [interpolateItems] at h
    rcases bind_eq_error.mp h with hv | ⟨w, -, h⟩
    · exact ⟨v, List.mem_cons_self, hv⟩
    · rcases bind_eq_error.mp h with hrest | ⟨ws, -, h⟩
      · obtain ⟨x, hx, he⟩ := interpolateItems_error hrest
        exact ⟨x, List.mem_cons_of_mem _ hx, he⟩
      · cases h

theorem interpolateEntries_error {e : Raised} : ∀ {entries : List (Value × Value)},
    interpolateEntries c entries = .error e →
      ∃ x ∈ entries.map (·.2), interpolateAll c x = .error e
  | [], h => by
    rw [interpolateEntries] at h
    cases h
  | (key, v) :: rest, h => by
    rw [interpolateEntries] at h
    rcases bind_eq_error.mp h with hv | ⟨w, -, h⟩
    · exact ⟨v, List.mem_cons_self, hv⟩
    · rcases bind_eq_error.mp h with hrest | ⟨ws, -, h⟩
      · obtain ⟨x, hx, he⟩ := interpolateEntries_error hrest
        exact ⟨x, List.mem_cons_of_mem _ hx, he⟩
      · cases h

/-- Interpolation fails only where a text with a marker does. -/
theorem interpolateAll_error {e : Raised} (h : interpolateAll c v = .error e) :
    ∃ place s, Value.at? place v = some (.str s) ∧ hasMarker s = true ∧
      interpolateText c s = .error e := by
  induction v using Value.induction_parts with
  | h v ih =>
    have hpart : (∃ x ∈ v.parts, interpolateAll c x = .error e) →
        ∃ place s, Value.at? place v = some (.str s) ∧ hasMarker s = true ∧
          interpolateText c s = .error e := by
      rintro ⟨x, hx, he⟩
      obtain ⟨place, s, hat, hs⟩ := ih x hx he
      obtain ⟨i, hat⟩ := Value.at?_of_mem_parts hx hat
      exact ⟨i :: place, s, hat, hs⟩
    cases v with
    | dict entries =>
      rw [interpolateAll] at h
      rcases bind_eq_error.mp h with he | ⟨w, -, h⟩
      · exact hpart (interpolateEntries_error he)
      · cases h
    | list items =>
      rw [interpolateAll] at h
      rcases bind_eq_error.mp h with he | ⟨w, -, h⟩
      · exact hpart (interpolateItems_error he)
      · cases h
    | str s =>
      rw [interpolateAll] at h
      refine ⟨[], s, rfl, ?_, h⟩
      by_contra hs
      rw [interpolateText_eq c (Bool.eq_false_iff.mpr hs)] at h
      cases h
    | _ => simp [interpolateAll] at h

end

/-- **Interpolation changes texts with a marker and nothing else.** The test for formulas finds a
marker in a text at any place. Where it finds none, interpolation leaves the configuration as it is
and does not fail, whatever the context; it fails only where a text with a marker does. Where it
does not fail, a dictionary has the same keys in the same order as before at every place, a list
has as many items, and every leaf is the same that is no text with a marker. -/
theorem interpolation_keeps :
    (∀ v, hasFormula v = true ↔
      ∃ place s, Value.at? place v = some (.str s) ∧ hasMarker s = true) ∧
    (∀ v, hasFormula v = false → ∀ c, interpolateAll c v = .ok v) ∧
    (∀ c v e, interpolateAll c v = .error e → ∃ place s,
      Value.at? place v = some (.str s) ∧ hasMarker s = true ∧ interpolateText c s = .error e) ∧
    ∀ c v w, interpolateAll c v = .ok w → ∀ place u, Value.at? place v = some u →
      ∃ u', Value.at? place w = some u' ∧
        (∀ entries, u = .dict entries →
          ∃ entries', u' = .dict entries' ∧ entries'.map (·.1) = entries.map (·.1)) ∧
        (∀ items, u = .list items → ∃ items', u' = .list items' ∧ items'.length = items.length) ∧
        (u.IsLeaf → isInterpolated u = false → u' = u) := by
  refine ⟨fun v => hasFormula_iff_at, fun v hv c => interpolateAll_eq c v hv,
    fun c v e => interpolateAll_error, fun c v w h place u hu => ?_⟩
  obtain ⟨u', hat, hu'⟩ := interpolateAll_at h hu
  refine ⟨u', hat, ?_, ?_, fun hleaf hplain => ?_⟩
  · rintro entries rfl
    obtain ⟨entries', rfl, hkeys, -⟩ := interpolateAll_dict hu'
    exact ⟨entries', rfl, hkeys⟩
  · rintro items rfl
    obtain ⟨items', rfl, hparts⟩ := interpolateAll_list hu'
    exact ⟨items', rfl, hparts.length_eq.symm⟩
  · rw [interpolateAll_leaf hleaf hplain] at hu'
    exact (Except.ok.inj hu').symm

/-- A context that binds one name, to nothing. -/
def sparse : Context where
  workflowId := "w"
  executionId := "e"
  bindings := [("b", .none)]

/-- A marker in a list in a dictionary. -/
def nested : Value :=
  .dict [(.str "z", .list [.str "\x7b\x7bb\x7d\x7d", .bool true]), (.str "a", .str "\x7d\x7d")]

theorem nested_keeps :
    hasFormula nested = true ∧
    interpolateAll sparse (.list [.str "\x7d\x7d \x7b", .bool true]) =
      .ok (.list [.str "\x7d\x7d \x7b", .bool true]) ∧
    (∃ w, interpolateAll sparse nested = .ok w ∧ Value.at? [0, 1] w = some (.bool true) ∧
      Value.at? [1] w = some (.str "\x7d\x7d")) ∧
    ∃ e, interpolateAll sparse (.list [.str "\x7b\x7by\x7d\x7d"]) = .error e ∧
      ∃ place s, Value.at? place (.list [.str "\x7b\x7by\x7d\x7d"]) = some (.str s) ∧
        hasMarker s = true ∧ interpolateText sparse s = .error e := by
  obtain ⟨hmarked, hplain, hfail, hkeep⟩ := interpolation_keeps
  have hrun : interpolateAll sparse nested =
      .ok (.dict [(.str "z", .list [.none, .bool true]), (.str "a", .str "\x7d\x7d")]) := by cbv
  have hwhole : wholeFormula? "\x7b\x7by\x7d\x7d" = some "y" := by cbv
  have hread : Formula.read "y" = .ok (.name "y") := by cbv
  have hname : sparse.evaluate (.str "y") = .error (.ofFormula (.undefinedName "y")) := by
    rw [Context.evaluate, Formula.evaluate, Formula.evaluateText, hread]
    rfl
  have herror : interpolateAll sparse (.list [.str "\x7b\x7by\x7d\x7d"]) =
      .error (.ofFormula (.undefinedName "y")) := by
    rw [interpolateAll, interpolateItems, interpolateAll, interpolateText, if_pos (by decide), hwhole]
    simp only [hname]
    rfl
  obtain ⟨u, hu, -, -, hleaf⟩ := hkeep _ _ _ hrun [0, 1] (.bool true) rfl
  obtain ⟨u', hu', -, -, hleaf'⟩ := hkeep _ _ _ hrun [1] (.str "\x7d\x7d") rfl
  refine ⟨(hmarked nested).mpr ⟨[0, 0], "\x7b\x7bb\x7d\x7d", rfl, by decide⟩,
    hplain _ (by decide) sparse, ⟨_, hrun, ?_, ?_⟩, _, herror, hfail _ _ _ herror⟩
  · rw [hu, hleaf (by simp [Value.IsLeaf]) rfl]
  · rw [hu', hleaf' (by simp [Value.IsLeaf]) (by decide)]

end Workflow
