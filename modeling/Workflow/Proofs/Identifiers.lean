/-
The names of generated code are names: whatever ids and kinds a plan has, the
identifiers made of them consist of letters, digits and underscores, so that a
reader of code takes each for one word (`named_ofPlan`).
-/
import Workflow.Proofs.Continuations
import Workflow.Proofs.Writing

namespace Workflow.Handler

open Outline

theorem isWordChar_fixed {cs : List Char} (h : cs.all isWordChar) :
    ∀ c ∈ (String.ofList cs).toList, isWordChar c := by
  intro c hc
  rw [String.toList_ofList] at hc
  exact List.all_eq_true.mp h c hc

theorem isName_fixed {cs : List Char} (hne : cs.isEmpty = false) (h : cs.all isWordChar) :
    IsName (String.ofList cs) := by
  refine ⟨fun he => ?_, isWordChar_fixed h⟩
  have hcs : cs = [] := by simpa using congrArg String.toList he
  simp [hcs] at hne

/-- Whether a character is a plain letter, a digit or an underscore. -/
def isIdChar (c : Char) : Bool := c.isAlphanum || c = '_'

/-- A text of plain letters, digits and underscores. -/
def IsIdentifier (s : String) : Prop := s ≠ "" ∧ ∀ c ∈ s.toList, isIdChar c

theorem isWordChar_of_isIdChar {c : Char} (h : isIdChar c) : isWordChar c := by
  simp [isWordChar, show (c.isAlphanum || c = '_') = true from h]

theorem IsIdentifier.isName {s : String} (h : IsIdentifier s) : IsName s :=
  ⟨h.1, fun c hc => isWordChar_of_isIdChar (h.2 c hc)⟩

theorem IsIdentifier.append {a b : String} (ha : IsIdentifier a) (hb : ∀ c ∈ b.toList, isIdChar c) :
    IsIdentifier (a ++ b) := by
  refine ⟨by simp [ha.1], fun c hc => ?_⟩
  rw [String.toList_append, List.mem_append] at hc
  exact hc.elim (ha.2 c) (hb c)

theorem isIdChar_fixed {cs : List Char} (h : cs.all isIdChar) :
    ∀ c ∈ (String.ofList cs).toList, isIdChar c := by
  intro c hc
  rw [String.toList_ofList] at hc
  exact List.all_eq_true.mp h c hc

theorem isIdChar_natText {n : Nat} {c : Char} (h : c ∈ (Number.natText n).toList) : isIdChar c := by
  rw [Number.natText, String.toList_ofList] at h
  have hdigit : c.isDigit := Nat.isDigit_of_mem_toDigits (by decide) (by decide) h
  simp [isIdChar, Char.isAlphanum, hdigit]

theorem isIdChar_of_isPlain {c : Char} (h : isPlain c) : isIdChar c.toLower := by
  by_cases hu : c.isUpper
  · simp [isIdChar, Char.isAlphanum, Char.isAlpha, hu]
  · rw [Char.toLower_eq_of_not_isUpper hu]
    simp only [isPlain, Bool.or_eq_true] at h
    rcases h with (h | h) | h
    · simp [isIdChar, Char.isAlphanum, h]
    · simp [isIdChar, Char.isAlphanum, Char.isAlpha, h]
    · exact absurd h hu

theorem isIdChar_of_mem_plainRuns {current cs run : List Char} {c : Char}
    (hcur : ∀ d ∈ current, isIdChar d) (hrun : run ∈ plainRuns current cs) (hc : c ∈ run) :
    isIdChar c := by
  induction cs generalizing current with
  | nil =>
    rw [plainRuns] at hrun
    split at hrun
    · simp at hrun
    · rw [List.mem_singleton.mp hrun, List.mem_reverse] at hc
      exact hcur c hc
  | cons d rest ih =>
    rw [plainRuns] at hrun
    split at hrun
    · next hd =>
      refine ih (fun e he => ?_) hrun
      rcases List.mem_cons.mp he with rfl | he
      · exact isIdChar_of_isPlain hd
      · exact hcur e he
    · split at hrun
      · exact ih (by simp) hrun
      · rcases List.mem_cons.mp hrun with rfl | hrun
        · exact hcur c (List.mem_reverse.mp hc)
        · exact ih (by simp) hrun

theorem isIdentifier_identifier (name : String) : IsIdentifier (identifier name) := by
  have hcs : ∀ c ∈ ['_'].intercalate (plainRuns [] name.toList), isIdChar c := by
    intro c hc
    rcases mem_intercalate hc with hc | ⟨run, hrun, hc⟩
    · rw [List.mem_singleton.mp hc]
      rfl
    · exact isIdChar_of_mem_plainRuns (by simp) hrun hc
  unfold identifier
  generalize ['_'].intercalate (plainRuns [] name.toList) = cs at hcs
  cases cs with
  | nil => exact ⟨by decide, isIdChar_fixed rfl⟩
  | cons c rest =>
    dsimp only
    split
    · refine ⟨by simp [String.ofList_eq_empty_iff], isIdChar_fixed (List.all_eq_true.mpr ?_)⟩
      exact List.forall_mem_cons.mpr ⟨rfl, hcs⟩
    · exact ⟨by simp [String.ofList_eq_empty_iff], isIdChar_fixed (List.all_eq_true.mpr hcs)⟩

theorem isName_identifier (name : String) : IsName (identifier name) :=
  (isIdentifier_identifier name).isName

/-- A free name is the base, with a number where the base is taken. -/
theorem freshName_form (base separator : String) (taken : List String) :
    freshName base separator taken = base ∨
      ∃ n, freshName base separator taken = base ++ separator ++ Number.natText n := by
  have hf : freshName base separator taken =
      ((candidates base separator taken.length).find? (· ∉ taken)).getD base := rfl
  rw [hf]
  cases hc : (candidates base separator taken.length).find? (· ∉ taken) with
  | none => exact .inl rfl
  | some name =>
    rcases List.mem_cons.mp (List.mem_of_find?_eq_some hc) with rfl | hn
    · exact .inl rfl
    · obtain ⟨n, -, rfl⟩ := List.mem_map.mp hn
      exact .inr ⟨n + 1, rfl⟩

theorem isIdentifier_freshName {base separator : String} (hb : IsIdentifier base)
    (hs : ∀ c ∈ separator.toList, isIdChar c) (taken : List String) :
    IsIdentifier (freshName base separator taken) := by
  rcases freshName_form base separator taken with hf | ⟨n, hf⟩
  · rwa [hf]
  · rw [hf]
    exact (hb.append hs).append fun c => isIdChar_natText

theorem isIdentifier_variableNames (ids : List String) :
    ∀ e ∈ variableNames ids, IsIdentifier e.2 := by
  induction ids using List.reverseRecOn with
  | nil => simp [variableNames]
  | append_singleton ids id ih =>
    intro e he
    rw [variableNames_concat, List.mem_append, List.mem_singleton] at he
    rcases he with he | rfl
    · exact ih e he
    · exact isIdentifier_freshName (isIdentifier_identifier id) (isIdChar_fixed rfl) _

theorem aliasNames_concat (kinds : List String) (kind : String) :
    aliasNames (kinds ++ [kind]) = aliasNames kinds ++
      [(kind, freshName (identifier kind ++ "_runtime") "" ((aliasNames kinds).map (·.2)))] := by
  simp [aliasNames, List.foldl_append]

theorem aliasNames_kinds (kinds : List String) : (aliasNames kinds).map (·.1) = kinds := by
  induction kinds using List.reverseRecOn with
  | nil => rfl
  | append_singleton kinds kind ih => rw [aliasNames_concat, List.map_append, ih]; rfl

/-- Which name a kind is imported under: its identifier with a suffix, and a number where that is
taken. -/
theorem aliasNames_form (kinds : List String) : ∀ e ∈ aliasNames kinds,
    e.2 = identifier e.1 ++ "_runtime" ∨
      ∃ n, e.2 = identifier e.1 ++ "_runtime" ++ Number.natText n := by
  induction kinds using List.reverseRecOn with
  | nil => simp [aliasNames]
  | append_singleton kinds kind ih =>
    intro e he
    rw [aliasNames_concat, List.mem_append, List.mem_singleton] at he
    rcases he with he | rfl
    · exact ih e he
    · simpa using freshName_form (identifier kind ++ "_runtime") "" ((aliasNames kinds).map (·.2))

theorem isIdentifier_aliasNames (kinds : List String) :
    ∀ e ∈ aliasNames kinds, IsIdentifier e.2 := by
  intro e he
  have hb := (isIdentifier_identifier e.1).append (isIdChar_fixed rfl : ∀ c ∈ "_runtime".toList, _)
  rcases aliasNames_form kinds e he with hf | ⟨n, hf⟩
  · rwa [hf]
  · rw [hf]
    exact hb.append fun c => isIdChar_natText

/-- No two kinds are imported under one name. -/
theorem aliasNames_nodup (kinds : List String) : ((aliasNames kinds).map (·.2)).Nodup := by
  induction kinds using List.reverseRecOn with
  | nil => exact List.nodup_nil
  | append_singleton kinds kind ih =>
    rw [aliasNames_concat, List.map_append, List.nodup_append]
    refine ⟨ih, List.nodup_singleton _, fun a ha b hb hab => ?_⟩
    rw [List.mem_singleton.mp hb] at hab
    exact freshName_notMem _ _ _ (hab ▸ ha)

theorem isName_nodeModule (kind : String) : IsName (nodeModule kind) :=
  ((isName_fixed rfl rfl).append (isName_identifier kind).2).append (isWordChar_fixed rfl)

/-- A handler whose names can be written: those of its nodes, and those of the kinds that it
imports. -/
structure Named (h : Handler) : Prop where
  node : ∀ id, IsName (h.variableOf id)
  kind : ∀ e ∈ h.aliases, IsName e.2

theorem mem_aliases {h : Handler} {kind : String} (hk : kind ∈ h.kinds) :
    (kind, h.aliasOf kind) ∈ h.aliases := by
  obtain ⟨e, he, rfl⟩ := List.mem_map.mp hk
  have hs : (h.aliases.lookup e.1).isSome := List.lookup_isSome_iff.mpr ⟨e, he, by simp⟩
  obtain ⟨name, hl⟩ := Option.isSome_iff_exists.mp hs
  rw [aliasOf, hl]
  exact mem_of_lookup hl

theorem Named.alias {h : Handler} (hn : Named h) {kind : String} (hk : kind ∈ h.kinds) :
    IsName (h.aliasOf kind) := hn.kind _ (mem_aliases hk)

theorem ofPlan_aliases {p : Plan} {h : Handler} (hp : ofPlan p = .ok h) :
    h.aliases = aliasNames (usedKinds h.flow.written) ∧
      h.secrets = (((p.steps.filter (·.kind ∈ usedKinds h.flow.written)).flatMap
        (·.secrets)).eraseDups.mergeSort fun a b => a ≤ b) := by
  unfold ofPlan at hp
  split at hp
  · cases hp
  · split at hp
    · cases hp
    · simp only [bind_eq_ok] at hp
      obtain ⟨guard, -, flow, -, hp⟩ := hp
      cases hp
      exact ⟨rfl, rfl⟩

theorem kinds_eq {p : Plan} {h : Handler} (hp : ofPlan p = .ok h) :
    h.kinds = usedKinds h.flow.written := by
  rw [kinds, (ofPlan_aliases hp).1, aliasNames_kinds]

/-- Whatever ids a plan has, the names made of them are identifiers. -/
theorem isIdentifier_variableOf {p : Plan} {h : Handler} (hp : ofPlan p = .ok h) (id : String) :
    IsIdentifier (h.variableOf id) := by
  obtain ⟨-, -, -, -, -, hn⟩ := ofPlan_eq_ok hp
  rw [variableOf, hn]
  cases hl : (variableNames (p.steps.map (·.id))).lookup id with
  | none => exact isIdentifier_identifier id
  | some name => exact isIdentifier_variableNames _ _ (mem_of_lookup hl)

theorem named_ofPlan {p : Plan} {h : Handler} (hp : ofPlan p = .ok h) : Named h where
  node id := (isIdentifier_variableOf hp id).isName
  kind := by
    rw [(ofPlan_aliases hp).1]
    exact fun e he => (isIdentifier_aliasNames _ e he).isName

end Workflow.Handler
