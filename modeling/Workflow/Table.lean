/-
Ordered maps from names: lists of entries in the order in which their names
were first put in.
-/

namespace Workflow

/-- Puts an entry into an ordered map: a known key keeps its place. -/
def putEntry {α : Type} (key : String) (value : α) : List (String × α) → List (String × α)
  | [] => [(key, value)]
  | (k, v) :: rest => if k = key then (k, value) :: rest else (k, v) :: putEntry key value rest

theorem lookup_putEntry {α : Type} (key : String) (value : α) (entries : List (String × α))
    (k : String) :
    (putEntry key value entries).lookup k = if k = key then some value else entries.lookup k := by
  induction entries with
  | nil => by_cases hk : k = key <;> simp [putEntry, hk]
  | cons e rest ih =>
    obtain ⟨k', v'⟩ := e
    rw [putEntry]
    by_cases he : k' = key
    · subst he
      by_cases hk : k = k'
      · simp [hk]
      · simp [List.lookup_cons, hk, beq_false_of_ne hk]
    · by_cases hk : k = k'
      · subst hk
        simp [he]
      · simp [List.lookup_cons, he, beq_false_of_ne hk, ih]

theorem mem_putEntry {α : Type} {key : String} {value : α} {entries : List (String × α)}
    {e : String × α} (h : e ∈ putEntry key value entries) : e = (key, value) ∨ e ∈ entries := by
  induction entries with
  | nil => exact .inl (by simpa [putEntry] using h)
  | cons e' rest ih =>
    rw [putEntry] at h
    split at h
    · next hk =>
      rcases List.mem_cons.mp h with rfl | h
      · exact .inl (by rw [hk])
      · exact .inr (List.mem_cons_of_mem _ h)
    · rcases List.mem_cons.mp h with rfl | h
      · exact .inr List.mem_cons_self
      · exact (ih h).imp_right (List.mem_cons_of_mem _)

/-- The entry of a key in a map that is given for each of its keys. -/
theorem lookup_map_keys {α : Type} (f : String → α) (keys : List String) (k : String) :
    (keys.map fun k => (k, f k)).lookup k = if k ∈ keys then some (f k) else none := by
  induction keys with
  | nil => rfl
  | cons k' rest ih =>
    by_cases hk : k = k'
    · simp [hk]
    · simp [List.lookup_cons, hk, beq_false_of_ne hk, ih]

end Workflow
