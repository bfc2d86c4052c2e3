/-
The names of generated code are valid and distinct, whatever ids and kinds a
workflow has.

Every text becomes an identifier, and an identifier stays as it is
(`tidy_identifier`, `identifier_of_tidy`). A search for a free name ends with the
first candidate that is free (`freshName_first`). Names of nodes and of kinds are
given one after the other, each free of those before, and no two stems start one
variable (`stems_apart`).
-/
import Workflow.Proofs.Capture
import Workflow.Proofs.Embedding

namespace Workflow.Handler

/-! ## Identifiers -/

/-- A small letter or a digit. -/
def isSmall (c : Char) : Bool := c.isLower || c.isDigit

/-- Words of small letters and digits, set apart by single underscores. -/
structure Joined (cs : List Char) : Prop where
  nonempty : cs ≠ []
  chars : ∀ c ∈ cs, isSmall c ∨ c = '_'
  single : cs.IsChain fun c d => c ≠ '_' ∨ d ≠ '_'
  first : ∀ c ∈ cs.head?, c ≠ '_'
  last : ∀ c ∈ cs.getLast?, c ≠ '_'

/-- An identifier: words set apart by single underscores, the first not led by a digit. -/
structure Tidy (cs : List Char) : Prop extends Joined cs where
  lead : ∀ c ∈ cs.head?, c.isDigit = false

theorem isSmall_toLower {c : Char} (h : isPlain c) : isSmall c.toLower := by
  by_cases hu : c.isUpper
  · simp [isSmall, Char.isAlpha, hu]
  · rw [Char.toLower_eq_of_not_isUpper hu]
    simpa [isPlain, isSmall, hu, Bool.or_comm] using h

theorem isSmall_ne {c : Char} (h : isSmall c) : c ≠ '_' := by
  rintro rfl
  cases h

theorem isPlain_of_isSmall {c : Char} (h : isSmall c) : isPlain c ∧ c.toLower = c := by
  have hu : ¬ c.isUpper := by
    simp only [isSmall, Char.isLower, Char.isDigit, Char.isUpper, Bool.or_eq_true, Bool.and_eq_true,
      decide_eq_true_eq, UInt32.le_iff_toNat_le, ge_iff_le] at h ⊢
    grind
  refine ⟨?_, Char.toLower_eq_of_not_isUpper hu⟩
  simpa [isPlain, isSmall, hu, Bool.or_comm] using h

/-- The runs of a text are words of small letters and digits. -/
theorem plainRuns_small {current cs : List Char} (hcur : ∀ c ∈ current, isSmall c) :
    ∀ run ∈ plainRuns current cs, run ≠ [] ∧ ∀ c ∈ run, isSmall c := by
  have hdone : ∀ {current : List Char}, (∀ c ∈ current, isSmall c) → ¬ current.isEmpty →
      current.reverse ≠ [] ∧ ∀ c ∈ current.reverse, isSmall c := by
    intro current hcur hne
    exact ⟨by simpa using hne, by simpa using hcur⟩
  fun_induction plainRuns current cs with
  | case1 => simp
  | case2 current hne => simpa using hdone hcur hne
  | case3 current c rest hc ih =>
    exact ih (List.forall_mem_cons.mpr ⟨isSmall_toLower hc, hcur⟩)
  | case4 current c rest hc hne ih => exact ih (by simp)
  | case5 current c rest hc hne ih =>
    exact List.forall_mem_cons.mpr ⟨hdone hcur hne, ih (by simp)⟩

theorem Joined.word {run : List Char} (hne : run ≠ []) (h : ∀ c ∈ run, isSmall c) : Joined run where
  nonempty := hne
  chars c hc := .inl (h c hc)
  single := (List.pairwise_of_forall_mem_list fun c hc _ _ => .inl (isSmall_ne (h c hc))).isChain
  first c hc := isSmall_ne (h c (List.mem_of_mem_head? hc))
  last c hc := isSmall_ne (h c (List.mem_of_mem_getLast? hc))

theorem Joined.append {a b : List Char} (ha : Joined a) (hb : Joined b) :
    Joined (a ++ '_' :: b) where
  nonempty := by simp
  chars := by
    have := ha.chars
    have := hb.chars
    grind
  single := by
    refine List.isChain_append.mpr ⟨ha.single, ?_, fun c hc _ _ => .inl (ha.last c hc)⟩
    exact hb.single.cons fun d hd => .inr (hb.first d hd)
  first := by
    rw [List.head?_append_of_ne_nil _ ha.nonempty]
    exact ha.first
  last := by
    rw [List.getLast?_append_of_ne_nil _ (by simp), List.getLast?_cons_of_ne_nil hb.nonempty]
    exact hb.last

theorem joined_intercalate {runs : List (List Char)} (hne : runs ≠ [])
    (h : ∀ run ∈ runs, run ≠ [] ∧ ∀ c ∈ run, isSmall c) : Joined (['_'].intercalate runs) := by
  induction runs with
  | nil => exact absurd rfl hne
  | cons run runs ih =>
    obtain ⟨hrun, hruns⟩ := List.forall_mem_cons.mp h
    have hword := Joined.word hrun.1 hrun.2
    cases runs with
    | nil => simpa using hword
    | cons next runs =>
      rw [List.intercalate_cons_cons]
      simpa using hword.append (ih (by simp) hruns)

/-- Every text becomes an identifier. -/
theorem tidy_identifier (name : String) : Tidy (identifier name).toList := by
  unfold identifier
  have hruns := @plainRuns_small [] name.toList (by simp)
  cases hcs : ['_'].intercalate (plainRuns [] name.toList) with
  | nil =>
    have hnode : "node".toList = ['n', 'o', 'd', 'e'] := by simp
    dsimp only
    rw [hnode]
    exact ⟨.word (by simp) (List.all_eq_true.mp rfl), by simp⟩
  | cons c rest =>
    have hj : Joined (c :: rest) := by
      rw [← hcs]
      refine joined_intercalate ?_ hruns
      intro hnil
      simp [hnil] at hcs
    dsimp only
    rw [String.toList_ofList]
    split
    · refine ⟨⟨by simp, ?_, hj.single.cons fun _ _ => .inl (by decide), by simp, ?_⟩, by simp⟩
      · exact List.forall_mem_cons.mpr ⟨.inl rfl, hj.chars⟩
      · simpa using hj.last
    · next hd => exact ⟨hj, by simpa using hd⟩

/-- Words set apart by single underscores are joined again as they were. -/
theorem intercalate_plainRuns {current cs : List Char} (hchars : ∀ c ∈ cs, isSmall c ∨ c = '_')
    (hsingle : cs.IsChain fun c d => c ≠ '_' ∨ d ≠ '_') (hlast : ∀ c ∈ cs.getLast?, c ≠ '_')
    (hfirst : current = [] → ∀ c ∈ cs.head?, c ≠ '_') :
    ['_'].intercalate (plainRuns current cs) = current.reverse ++ cs := by
  fun_induction plainRuns current cs with
  | case1 current hc => simpa using hc
  | case2 current hc => simp
  | case3 current c rest hc ih =>
    have hsmall : isSmall c := by
      rcases hchars c (by simp) with h | rfl
      · exact h
      · cases hc
    rw [ih (fun d hd => hchars d (.tail _ hd)) hsingle.tail (by grind) (by simp),
      (isPlain_of_isSmall hsmall).2]
    simp
  | case4 current c rest hc hne ih =>
    have := hfirst (by simpa using hne) c rfl
    have := hchars c (by simp)
    grind [isPlain_of_isSmall]
  | case5 current c rest hc hne ih =>
    obtain rfl : c = '_' := by
      rcases hchars c (by simp) with h | h
      · exact absurd (isPlain_of_isSmall h).1 hc
      · exact h
    -- Something follows the underscore, and it is no underscore.
    have hrest : rest ≠ [] := by
      rintro rfl
      exact hlast '_' rfl rfl
    have ih := ih (fun d hd => hchars d (.tail _ hd)) hsingle.tail (by grind) fun _ d hd => by
      have := List.isChain_cons.mp hsingle
      grind
    cases hruns : plainRuns [] rest with
    | nil =>
      rw [hruns] at ih
      exact absurd ih.symm hrest
    | cons run runs =>
      rw [hruns] at ih
      rw [List.intercalate_cons_cons, ih]
      simp

theorem identifier_of_tidy {name : String} (h : Tidy name.toList) : identifier name = name := by
  have hcs := @intercalate_plainRuns [] _ h.chars h.single h.last fun _ => h.first
  obtain ⟨c, rest, hname⟩ := List.exists_cons_of_ne_nil h.nonempty
  have hlead : c.isDigit = false := h.lead c (by rw [hname]; rfl)
  rw [identifier, hcs, List.reverse_nil, List.nil_append, hname]
  dsimp only
  rw [if_neg (by rw [hlead]; decide), ← hname, String.ofList_toList]

/-! ## Searches for a free name -/

/-- The candidates of a search, in the order in which they are tried. -/
def candidate (base separator : String) : Nat → String
  | 0 => base
  | n + 1 => base ++ separator ++ Number.natText (n + 1)

theorem candidates_eq (base separator : String) (bound : Nat) :
    candidates base separator bound = (List.range (bound + 1)).map (candidate base separator) := by
  rw [List.range_succ_eq_map, List.map_cons, List.map_map]
  rfl

/-- A search ends at the first candidate that is free, after as many steps as names are taken at
most. -/
theorem freshName_first (base separator : String) (taken : List String) :
    ∃ n ≤ taken.length, freshName base separator taken = candidate base separator n ∧
      candidate base separator n ∉ taken ∧ ∀ m < n, candidate base separator m ∈ taken := by
  have hfree := freshName_notMem base separator taken
  have hname : freshName base separator taken =
      ((candidates base separator taken.length).find? (· ∉ taken)).getD base := rfl
  rw [candidates_eq] at hname
  cases hfind : ((List.range (taken.length + 1)).map (candidate base separator)).find? (· ∉ taken) with
  | none =>
    rw [hname, hfind] at hfree
    have hbase := List.find?_eq_none.mp hfind base (List.mem_map.mpr ⟨0, by simp, rfl⟩)
    simp_all
  | some name =>
    obtain ⟨-, n, hn, rfl, hbefore⟩ := List.find?_eq_some_iff_getElem.mp hfind
    rw [hfind, Option.getD_some] at hname
    simp only [List.length_map, List.length_range] at hn
    simp only [List.getElem_map, List.getElem_range] at hname hbefore
    refine ⟨n, by omega, hname, hname ▸ hfree, fun m hm => ?_⟩
    simpa using hbefore m hm

/-! ## Names given one after the other -/

/-- The names of kinds after one more is asked for: a kind that has a name keeps it. -/
def askAlias (known : List (String × String)) (kind : String) : List (String × String) :=
  if kind ∈ known.map (·.1) then known
  else known ++ [(kind, freshName (identifier kind ++ "_runtime") "" (known.map (·.2)))]

/-- Asking for the names of kinds gives each a name where it is first asked for. -/
theorem foldl_askAlias (kinds : List String) :
    kinds.foldl askAlias [] = aliasNames kinds.eraseDups := by
  induction kinds using List.reverseRecOn with
  | nil => rfl
  | append_singleton kinds kind ih =>
    rw [List.foldl_append, List.foldl_cons, List.foldl_nil, ih, askAlias, aliasNames_kinds,
      List.eraseDups_append]
    by_cases hk : kind ∈ kinds
    · simp [hk, List.removeAll]
    · have hnew : ([kind].removeAll kinds).eraseDups = [kind] := by
        simp [List.removeAll, hk, List.eraseDups_cons]
      rw [if_neg (by simpa using hk), hnew, aliasNames_concat]

/-- No stem starts the variable of another. -/
theorem stems_apart {stem stem' a b : String} (hs : stem ∈ stemTexts) (hs' : stem' ∈ stemTexts)
    (h : stem ++ a = stem' ++ b) : stem = stem' ∧ a = b := by
  have hl := congrArg String.toList h
  simp only [stemTexts, List.mem_cons, List.not_mem_nil, or_false] at hs hs'
  rcases hs with rfl | rfl | rfl | rfl | rfl | rfl | rfl <;>
    rcases hs' with rfl | rfl | rfl | rfl | rfl | rfl | rfl <;>
    first | exact ⟨rfl, append_inj_right h⟩ | simp at hl

/-- A table of names that holds each key once gives every key its name. -/
theorem exists_named {keys : List String} {table : List (String × String)} (hkeys : keys.Nodup)
    (htable : table.map (·.1) = keys) :
    ∃ name : String → String, table = keys.map fun key => (key, name key) := by
  subst htable
  refine ⟨fun key => (table.lookup key).getD key, ?_⟩
  rw [List.map_map]
  refine (List.map_id table).symm.trans (List.map_congr_left fun e he => ?_)
  obtain ⟨name, hname⟩ := Option.isSome_iff_exists.mp
    (List.lookup_isSome_iff.mpr ⟨e, he, beq_self_eq_true e.1⟩)
  have hsame := List.inj_on_of_nodup_map hkeys (mem_of_lookup hname) he rfl
  simp [hname, hsame]

/-- Names that are distinct give distinct variables. -/
theorem nodup_variables {ids : List String} {name : String → String} (hids : ids.Nodup)
    (hnames : (ids.map name).Nodup) :
    (ids.flatMap fun id => stemTexts.map (· ++ name id)).Nodup := by
  have hstems : stemTexts.Nodup := by decide
  refine List.nodup_flatMap.mpr ⟨fun id _ => ?_, hids.pairwise_of_forall_ne fun a ha b hb hne => ?_⟩
  · exact hstems.map_on fun stem hs stem' hs' h => (stems_apart hs hs' h).1
  · rintro local' ha' hb'
    obtain ⟨stem, hs, rfl⟩ := List.mem_map.mp ha'
    obtain ⟨stem', hs', h⟩ := List.mem_map.mp hb'
    exact hne (List.inj_on_of_nodup_map hnames ha hb (stems_apart hs' hs h).2.symm)

/-- **Generated identifiers are valid and distinct.** The identifier of every text is tidy and is its
own identifier. A search for a free name ends at the first candidate that is free. Nodes with
different ids have different names, which together with the stems give different variables; and
kinds that are asked for in any order, each as often as one likes, have different names. -/
theorem names_valid_distinct (ids kinds : List String) (hids : ids.Nodup) :
    (∀ name, Tidy (identifier name).toList ∧ identifier (identifier name) = identifier name) ∧
    (∀ base separator taken, ∃ n ≤ List.length taken,
      freshName base separator taken = candidate base separator n ∧
        candidate base separator n ∉ taken ∧ ∀ m < n, candidate base separator m ∈ taken) ∧
    (∃ name : String → String, variableNames ids = ids.map (fun id => (id, name id)) ∧
      (ids.map name).Nodup ∧ (ids.flatMap fun id => stemTexts.map (· ++ name id)).Nodup) ∧
    ∃ name : String → String, kinds.foldl askAlias [] = aliasNames kinds.eraseDups ∧
      aliasNames kinds.eraseDups = kinds.eraseDups.map (fun kind => (kind, name kind)) ∧
      (kinds.eraseDups.map name).Nodup := by
  refine ⟨fun name => ⟨tidy_identifier name, identifier_of_tidy (tidy_identifier name)⟩,
    freshName_first, ?_, ?_⟩
  · obtain ⟨name, hname⟩ := exists_named hids (variableNames_ids ids)
    have hnodup := variableNames_nodup ids
    rw [hname, List.map_map] at hnodup
    exact ⟨name, hname, hnodup, nodup_variables hids hnodup⟩
  · have hkinds : kinds.eraseDups.Nodup := Bundle.nodup_eraseDups kinds
    obtain ⟨name, hname⟩ := exists_named hkinds (aliasNames_kinds _)
    have hnodup := aliasNames_nodup kinds.eraseDups
    rw [hname, List.map_map] at hnodup
    exact ⟨name, foldl_askAlias kinds, hname, hnodup⟩

/-- Ids that look like the names given to others before get names of their own, and so do kinds. -/
theorem suffixed_valid_distinct :
    variableNames ["a b", "a-b", "a_b_1"] =
        [("a b", "a_b"), ("a-b", "a_b_1"), ("a_b_1", "a_b_1_1")] ∧
      ["x!", "x", "x!"].foldl askAlias [] = [("x!", "x_runtime"), ("x", "x_runtime1")] ∧
      ∃ name : String → String, variableNames ["a b", "a-b", "a_b_1"] =
          ["a b", "a-b", "a_b_1"].map (fun id => (id, name id)) ∧
        (["a b", "a-b", "a_b_1"].map name).Nodup ∧
        (["a b", "a-b", "a_b_1"].flatMap fun id => stemTexts.map (· ++ name id)).Nodup :=
  ⟨by cbv, by cbv, (names_valid_distinct _ ["x!", "x", "x!"] (by decide)).2.2.1⟩

end Workflow.Handler
