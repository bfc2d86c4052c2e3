/-
The names of generated code are distinct where they must be: the search for a
free name finds one (`freshName_notMem`), so that no two nodes share a name
(`variableOf_inj`), and no two joins a coroutine (`continuationName_inj`).
-/
import Mathlib.Data.List.Induction
import Mathlib.Data.List.Nodup
import Workflow.Handler.Text

namespace Workflow.Handler

theorem natText_inj {m n : Nat} (h : Number.natText m = Number.natText n) : m = n := by
  have hd : Nat.toDigits 10 m = Nat.toDigits 10 n := by
    simpa [Number.natText] using congrArg String.toList h
  rw [← Nat.ofDigitChars_ten_toDigits (n := m), hd, Nat.ofDigitChars_ten_toDigits]

theorem append_inj_right {a b c : String} (h : a ++ b = a ++ c) : b = c := by
  have hl := congrArg String.toList h
  simp only [String.toList_append, List.append_cancel_left_eq] at hl
  exact String.toList_inj.mp hl

/-- The candidates for a name: the base, and the base with the numbers up to a bound. -/
def candidates (base separator : String) (bound : Nat) : List String :=
  base :: (List.range bound).map fun n => base ++ separator ++ Number.natText (n + 1)

theorem candidates_nodup (base separator : String) (bound : Nat) :
    (candidates base separator bound).Nodup := by
  refine List.nodup_cons.mpr ⟨fun hm => ?_, List.nodup_range.map fun m n he => ?_⟩
  · obtain ⟨n, -, hn⟩ := List.mem_map.mp hm
    have hl := congrArg String.length hn
    have hd : 0 < (Nat.toDigits 10 (n + 1)).length := Nat.length_toDigits_pos
    simp only [String.length_append, Number.natText, String.length_ofList] at hl
    omega
  · have := natText_inj (append_inj_right he)
    omega

/-- Among one more candidate than there are names taken one is free. -/
theorem freshName_notMem (base separator : String) (taken : List String) :
    freshName base separator taken ∉ taken := by
  have hf : freshName base separator taken =
      ((candidates base separator taken.length).find? (· ∉ taken)).getD base := rfl
  cases hc : (candidates base separator taken.length).find? (· ∉ taken) with
  | some name =>
    rw [hf, hc]
    simpa using List.find?_some hc
  | none =>
    have hsub : candidates base separator taken.length ⊆ taken := fun name hn => by
      simpa using List.find?_eq_none.mp hc name hn
    have hle := (candidates_nodup base separator taken.length).length_le_of_subset hsub
    simp only [candidates, List.length_cons, List.length_map, List.length_range] at hle
    omega

/-- Names are given one after the other, each free of all that are given already. -/
theorem variableNames_concat (ids : List String) (id : String) :
    variableNames (ids ++ [id]) = variableNames ids ++
      [(id, freshName (identifier id) "_" ((variableNames ids).map (·.2)))] := by
  simp [variableNames, List.foldl_append]

theorem variableNames_ids (ids : List String) : (variableNames ids).map (·.1) = ids := by
  induction ids using List.reverseRecOn with
  | nil => rfl
  | append_singleton ids id ih => rw [variableNames_concat, List.map_append, ih]; rfl

theorem variableNames_nodup (ids : List String) : ((variableNames ids).map (·.2)).Nodup := by
  induction ids using List.reverseRecOn with
  | nil => exact List.nodup_nil
  | append_singleton ids id ih =>
    rw [variableNames_concat, List.map_append]
    refine List.nodup_append.mpr ⟨ih, List.nodup_singleton _, ?_⟩
    rintro name hn _ hid rfl
    obtain rfl := List.mem_singleton.mp hid
    exact freshName_notMem _ _ _ hn

theorem mem_of_lookup {names : List (String × String)} {id name : String}
    (h : names.lookup id = some name) : (id, name) ∈ names := by
  obtain ⟨l₁, l₂, rfl, -⟩ := List.lookup_eq_some_iff.mp h
  simp

theorem lookup_variableNames {ids : List String} {id : String} (h : id ∈ ids) :
    ∃ name, (variableNames ids).lookup id = some name := by
  rw [← Option.isSome_iff_exists, List.lookup_isSome_iff]
  rw [← variableNames_ids ids, List.mem_map] at h
  obtain ⟨e, he, rfl⟩ := h
  exact ⟨e, he, by simp⟩

/-- Different nodes have different names. -/
theorem variableOf_inj {h : Handler} {ids : List String} (hn : h.nodeNames = variableNames ids)
    {a b : String} (ha : a ∈ ids) (hb : b ∈ ids) (he : h.variableOf a = h.variableOf b) :
    a = b := by
  obtain ⟨m, hm⟩ := lookup_variableNames ha
  obtain ⟨n, hn'⟩ := lookup_variableNames hb
  simp only [variableOf, hn, hm, hn', Option.getD_some] at he
  subst he
  have hpair := List.inj_on_of_nodup_map (variableNames_nodup ids) (mem_of_lookup hm)
    (mem_of_lookup hn') rfl
  exact congrArg Prod.fst hpair

/-- Different joins have different coroutines. -/
theorem continuationName_inj {h : Handler} {ids : List String}
    (hn : h.nodeNames = variableNames ids) {a b : String} (ha : a ∈ ids) (hb : b ∈ ids)
    (he : h.continuationName a = h.continuationName b) : a = b :=
  variableOf_inj hn ha hb (append_inj_right he)

end Workflow.Handler
