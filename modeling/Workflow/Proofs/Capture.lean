/-
What the name of an import denotes in a handler.

The names of variables and the names of imports are made of different texts, and
each kind of name is made distinct only among its own. A kind's name is the one of
an import inside `fetch` exactly as long as no block that is written makes the same
name for a variable (`alias_denotes_iff`), which a node called `runtime` does to a
kind called `props` (`props_runtime_bound`).
-/
import Workflow.Proofs.Usage

namespace Workflow.Handler

open Outline
open Outline.Lexeme (word mark text)

/-- What the names of the variables of a block start with. -/
def Block.stems : Block → List String
  | .action _ => ["props_", "result_"]
  | .branch .. => ["condition_"]
  | .subject _ | .select .. => ["switch_value_"]
  | .loop .. => ["items_", "index_"]
  | .trigger _ | .unsupported _ | .unreadable .. | .join _ => []

/-- The names that a handler makes of the ids of nodes. -/
def madeNames (h : Handler) : List String :=
  h.flow.continuations.map (h.continuationName ·.join) ++
    h.flow.written.flatMap fun b => b.stems.map (· ++ h.variableOf b.step.id)

/-! ## What blocks and guards bind -/

theorem boundBy_armTests (target : String) {keyword : String} (hk : keyword ∈ ["if", "elif"])
    (arms : List (String × List Block)) : (armTests target keyword arms).flatMap boundBy = [] := by
  induction arms generalizing keyword with
  | nil => rfl
  | cons arm rest ih =>
    have htest : boundBy (test keyword
        (call "str" [word target] ++ [mark '=', mark '=', text (Text.quoted arm.1)])) = [] := by
      simp only [List.mem_cons, List.not_mem_nil, or_false] at hk
      rcases hk with rfl | rfl <;> rfl
    rw [armTests, List.flatMap_cons, htest, ih (by simp)]
    rfl

/-- A block binds its variables, and an action the current step. -/
theorem mem_boundBy_own (h : Handler) (b : Block) {name : String}
    (hc : name ≠ "context.current_step") :
    name ∈ gather boundBy (ownScript h b) ↔ name ∈ b.stems.map (· ++ h.variableOf b.step.id) := by
  cases b with
  | trigger s | unsupported s | unreadable s fault | join s => exact Iff.rfl
  | action s =>
    have hown : gather boundBy (ownScript h (.action s)) =
        ["context.current_step", h.propsVariable s, h.resultVariable s] := rfl
    rw [hown, List.mem_cons, or_iff_right hc]
    rfl
  | branch s yes no => exact Iff.rfl
  | subject s => exact Iff.rfl
  | select s arms other =>
    have hown : gather boundBy (ownScript h (.select s arms other)) = [h.subjectVariable s] := by
      rw [ownScript, gather_append, gather_append, gather_onLevel,
        boundBy_armTests _ (List.mem_cons_self)]
      rfl
    rw [hown]
    rfl
  | loop s body => exact Iff.rfl

theorem boundBy_guard (guard : Guard) (n : Nat) :
    ∀ name ∈ gather boundBy (guardScript guard n), name = "signing_secret" := by
  cases guard with
  | manual => exact fun _ hn => nomatch hn
  | webhook methods access =>
    cases access with
    | signature secret => exact fun _ hn => List.mem_singleton.mp hn
    | «open» | token | misconfigured => exact fun _ hn => nomatch hn
  | cron schedule condition => cases condition <;> exact fun _ hn => nomatch hn

/-! ## Names of kinds -/

/-- The text that the name of every kind has after its identifier. -/
def suffixChars : List Char := ['_', 'r', 'u', 'n', 't', 'i', 'm', 'e']

/-- The name of a kind: its identifier, the suffix, and digits. -/
theorem alias_toList {p : Plan} {h : Handler} (hp : ofPlan p = .ok h) {e : String × String}
    (he : e ∈ h.aliases) : ∃ digits, '_' ∉ digits ∧
      e.2.toList = (identifier e.1).toList ++ suffixChars ++ digits := by
  rw [(ofPlan_aliases hp).1] at he
  have hs : "_runtime".toList = suffixChars := String.toList_ofList
  rcases aliasNames_form _ _ he with hf | ⟨n, hf⟩
  · refine ⟨[], List.not_mem_nil, ?_⟩
    rw [hf, String.toList_append, hs, List.append_nil]
  · refine ⟨(Number.natText n).toList, fun hu => ?_, ?_⟩
    · rw [Number.natText, String.toList_ofList] at hu
      exact absurd (Nat.isDigit_of_mem_toDigits (by decide) (by decide) hu) (by decide)
    · rw [hf, String.toList_append, String.toList_append, hs]

theorem suffix_occurs {p : Plan} {h : Handler} (hp : ofPlan p = .ok h) {e : String × String}
    (he : e ∈ h.aliases) : suffixChars <:+: e.2.toList := by
  obtain ⟨digits, -, hname⟩ := alias_toList hp he
  exact ⟨_, _, hname.symm⟩

theorem fixed_lacks_suffix {cs : List Char} (h : ¬ suffixChars <:+: cs) :
    ¬ suffixChars <:+: (String.ofList cs).toList := by
  rwa [String.toList_ofList]

theorem fixedLocals_lack_suffix : ∀ name ∈ fixedLocals, ¬ suffixChars <:+: name.toList := by
  simp only [fixedLocals, List.forall_mem_cons]
  refine ⟨?_, ?_, ?_, ?_, ?_, ?_, ?_, ?_, ?_, ?_, ?_, by simp⟩
  all_goals exact fixed_lacks_suffix (by decide)

/-- The names that `fetch` binds in every handler, and those of guards, are no names of kinds. -/
theorem alias_bound_iff {p : Plan} {h : Handler} (hp : ofPlan p = .ok h) {kind : String}
    (hk : kind ∈ h.kinds) :
    h.aliasOf kind ∈ gather boundBy (coroutine "fetch" (script h)) ↔
      h.aliasOf kind ∈ h.madeNames := by
  have hinfix := suffix_occurs hp (mem_aliases hk)
  have hfixed : h.aliasOf kind ∉ fixedLocals := fun hm => fixedLocals_lack_suffix _ hm hinfix
  have hguard : h.aliasOf kind ∉ gather boundBy (guardScript h.guard 3) := fun hm => by
    rw [boundBy_guard _ _ _ hm] at hinfix
    exact fixed_lacks_suffix (by decide) hinfix
  have hstep : h.aliasOf kind ≠ "context.current_step" := fun he => by
    rw [he] at hinfix
    exact fixed_lacks_suffix (by decide) hinfix
  rw [mem_boundIn_fetch hp, or_iff_right hfixed, or_iff_right hguard, madeNames, List.mem_append,
    List.mem_flatMap]
  simp only [mem_boundBy_own h _ hstep]

theorem helper_lacks_suffix (x : Helper) : ¬ suffixChars <:+: x.name.toList := by
  cases x <;> exact fixed_lacks_suffix (by decide)

/-- One import binds the name of a kind, and it takes what executes the kind. -/
theorem alias_imported {p : Plan} {h : Handler} (hp : ofPlan p = .ok h) {kind : String}
    (hk : kind ∈ h.kinds) :
    (importsIn (script h)).filter (·.name = h.aliasOf kind) =
      [⟨nodeModule kind, "execute", h.aliasOf kind⟩] := by
  have hinfix := suffix_occurs hp (mem_aliases hk)
  have hhelpers : (h.helpers.map fun x => (⟨runtimeModule, x.name, x.name⟩ : Import)).filter
      (·.name = h.aliasOf kind) = [] := by
    refine List.filter_eq_nil_iff.mpr (List.forall_mem_map.mpr fun x _ he => ?_)
    have he : x.name = h.aliasOf kind := of_decide_eq_true he
    exact helper_lacks_suffix x (he ▸ hinfix)
  have hlogger : "Logger" ≠ h.aliasOf kind := fun he => by
    rw [← he] at hinfix
    exact fixed_lacks_suffix (by decide) hinfix
  have hkinds : h.aliases.filter (·.2 = h.aliasOf kind) = [(kind, h.aliasOf kind)] := by
    have hn : (h.aliases.map (·.2)).Nodup := (ofPlan_aliases hp).1 ▸ aliasNames_nodup _
    exact filter_eq_singleton hn (mem_aliases hk) fun d _ => by simp
  rw [importsIn_script, List.filter_append, hhelpers,
    List.filter_cons_of_neg (by simpa using hlogger), List.filter_map, List.nil_append]
  exact congrArg (List.map _) hkinds

/-! ## Captured names -/

/-- Throughout `fetch` a name denotes an import: neither `fetch` nor a coroutine in it binds the
name, and one import does. -/
def Denotes (ss : List Statement) (name : String) (i : Import) : Prop :=
  name ∉ gather boundBy (coroutine "fetch" ss) ∧ (importsIn ss).filter (·.name = name) = [i]

/-- A statement of a block that is written is one of `fetch`. -/
theorem exists_statement {p : Plan} {h : Handler} (hp : ofPlan p = .ok h) {b : Block}
    (hb : b ∈ h.flow.written) {t : Statement} (ht : t ∈ ownScript h b)
    (hpass : t.parts ≠ [word "pass"]) :
    ∃ u ∈ coroutine "fetch" (script h), u.parts = t.parts := by
  let g : List Lexeme → List (List Lexeme) := fun parts =>
    if parts = [word "pass"] then [] else [parts]
  have hg : ∀ {parts : List Lexeme} {s : Statement}, parts ∈ g s.parts → s.parts = parts := by
    intro parts s hm
    simp only [g] at hm
    split at hm
    · exact nomatch hm
    · exact (List.mem_singleton.mp hm).symm
  have hown : t.parts ∈ gather g (ownScript h b) :=
    List.mem_flatMap.mpr ⟨t, ht, by simp [g, hpass]⟩
  have hfetch := (mem_gather_fetch (g := g) (if_pos rfl) hp).mpr
    (.inr (.inr (.inr (.inr ⟨b, hb, hown⟩))))
  obtain ⟨u, hu, hm⟩ := List.mem_flatMap.mp hfetch
  refine ⟨u, ?_, hg hm⟩
  rw [coroutine_fetch]
  exact List.mem_cons_of_mem _ hu

/-- What made names start with. -/
def stemTexts : List String :=
  ["props_", "result_", "condition_", "switch_value_", "items_", "index_", "continue_"]

theorem stems_subset (b : Block) : ∀ stem ∈ b.stems, stem ∈ stemTexts := by
  cases b <;> simp [Block.stems, stemTexts]

theorem exists_stem {h : Handler} {name : String} (hm : name ∈ h.madeNames) :
    ∃ stem ∈ stemTexts, stem.toList <+: name.toList := by
  rcases List.mem_append.mp hm with hm | hm
  · obtain ⟨c, -, rfl⟩ := List.mem_map.mp hm
    refine ⟨"continue_", by simp [stemTexts], ?_⟩
    rw [continuationName, String.toList_append]
    exact List.prefix_append _ _
  · obtain ⟨b, -, hm⟩ := List.mem_flatMap.mp hm
    obtain ⟨stem, hs, rfl⟩ := List.mem_map.mp hm
    refine ⟨stem, stems_subset b stem hs, ?_⟩
    rw [String.toList_append]
    exact List.prefix_append _ _

/-- Where a text that ends with an underscore starts the name of a kind, it starts the identifier of
the kind with an underscore. -/
theorem isPrefix_identifier {ident digits stem : List Char} (hd : '_' ∉ digits)
    (hs : (stem ++ ['_']) <+: ident ++ suffixChars ++ digits) :
    (stem ++ ['_']) <+: ident ++ ['_'] := by
  have hname : ident ++ suffixChars ++ digits =
      (ident ++ ['_']) ++ (['r', 'u', 'n', 't', 'i', 'm', 'e'] ++ digits) := by simp [suffixChars]
  rw [hname] at hs
  rcases Nat.le_total (stem ++ ['_']).length (ident ++ ['_']).length with hle | hle
  · exact List.prefix_of_prefix_length_le hs (List.prefix_append _ _) hle
  · obtain ⟨t, ht⟩ := List.prefix_of_prefix_length_le (List.prefix_append _ _) hs hle
    rcases List.eq_nil_or_concat t with rfl | ⟨t, c, rfl⟩
    · rw [← ht, List.append_nil]
    -- Otherwise the underscore that ends the text stands in what follows the identifier.
    · exfalso
      rw [← ht, List.prefix_append_right_inj] at hs
      rw [List.concat_eq_append, ← List.append_assoc] at ht
      obtain rfl := List.singleton_inj.mp (List.append_inj_right' ht rfl)
      have hu : '_' ∈ ['r', 'u', 'n', 't', 'i', 'm', 'e'] ++ digits := hs.subset (by simp)
      simp [hd] at hu

theorem underscore_last {cs : List Char} (h : cs.getLast? = some '_') :
    ∃ ds, (String.ofList cs).toList = ds ++ ['_'] := by
  rw [String.toList_ofList]
  exact List.getLast?_eq_some_iff.mp h

/-- Only kinds whose identifier starts with a stem can be captured. -/
theorem stem_isPrefix {p : Plan} {h : Handler} (hp : ofPlan p = .ok h) {kind : String}
    (hk : kind ∈ h.kinds) (hm : h.aliasOf kind ∈ h.madeNames) :
    ∃ stem ∈ stemTexts, stem.toList <+: (identifier kind ++ "_").toList := by
  obtain ⟨stem, hs, hpre⟩ := exists_stem hm
  obtain ⟨digits, hd, hname⟩ := alias_toList hp (mem_aliases hk)
  have hlast : ∃ cs, stem.toList = cs ++ ['_'] := by
    simp only [stemTexts, List.mem_cons, List.not_mem_nil, or_false] at hs
    rcases hs with rfl | rfl | rfl | rfl | rfl | rfl | rfl
    all_goals exact underscore_last rfl
  obtain ⟨cs, hcs⟩ := hlast
  refine ⟨stem, hs, ?_⟩
  rw [hcs, hname] at hpre
  rw [hcs, String.toList_append]
  exact isPrefix_identifier hd hpre

/-- **When generated names capture imported ones.** In the text of a handler, `fetch` binds the name
of a kind exactly where a continuation or a variable of a block that is written is given the same
name. Every action calls the name of its kind, and this name denotes what executes the kind
throughout `fetch` exactly where that is not so; it is so only for kinds whose identifier starts
with a stem of generated names. -/
theorem alias_denotes_iff {p : Plan} {h : Handler} (hp : ofPlan p = .ok h) (hj : p.IsJson) :
    ∃ ss, outline? h.code = some ss ∧
      (∀ kind ∈ h.kinds, h.aliasOf kind ∈ gather boundBy (coroutine "fetch" ss) ↔
        h.aliasOf kind ∈ h.madeNames) ∧
      (∀ s, .action s ∈ h.flow.written →
        (∃ t ∈ coroutine "fetch" ss, t.parts = assign (h.resultVariable s) (actionCall h s)) ∧
        (Denotes ss (h.aliasOf s.kind) ⟨nodeModule s.kind, "execute", h.aliasOf s.kind⟩ ↔
          h.aliasOf s.kind ∉ h.madeNames)) ∧
      ∀ kind ∈ h.kinds, h.aliasOf kind ∈ h.madeNames →
        ∃ stem ∈ stemTexts, stem.toList <+: (identifier kind ++ "_").toList := by
  refine ⟨h.script, outline_code hp (isJson_ofPlan hp hj),
    fun kind hk => alias_bound_iff hp hk, fun s hs => ?_, fun kind hk => stem_isPrefix hp hk⟩
  have hk : s.kind ∈ h.kinds := by
    rw [kinds_eq hp]
    exact mem_usedKinds.mpr ⟨s, hs, rfl⟩
  refine ⟨exists_statement hp hs
    (t := onLevel 0 (assign (h.resultVariable s) (actionCall h s))) ?_ ?_, ?_⟩
  · simp [ownScript, actionScript]
  · simp [onLevel, assign]
  · rw [Denotes, alias_bound_iff hp hk, and_iff_left (alias_imported hp hk)]

/-- A plan with an action whose variable has the name of its kind, and one whose variables have
not. -/
def capturing : Plan where
  steps := [
    { id := "start", kind := "trigger-manual", role := .trigger, data := [], structural := false,
      category := .core },
    { id := "runtime", kind := "props", role := .action, data := [("value", .int 1)],
      structural := false, category := .externalLib },
    { id := "last", kind := "props-last", role := .action, data := [("value", .int 2)],
      structural := false, category := .externalLib }]
  edges := [{ source := "start", target := "runtime" }, { source := "runtime", target := "last" }]
  entry := "start"
  hasCycle := false
  depth := 3

theorem capturing_isJson : capturing.IsJson := by
  unfold Plan.IsJson
  decide

theorem capturing_names {h : Handler} (hp : ofPlan capturing = .ok h) :
    h.aliases = [("props", "props_runtime"), ("props-last", "props_last_runtime")] ∧
      h.madeNames = ["props_runtime", "result_runtime", "props_last", "result_last"] := by
  have hnames : (ofPlan capturing).map (fun h => (h.aliases, h.madeNames)) =
      .ok ([("props", "props_runtime"), ("props-last", "props_last_runtime")],
        ["props_runtime", "result_runtime", "props_last", "result_last"]) := by
    cbv
  rw [hp] at hnames
  exact Prod.mk.inj (Except.ok.inj hnames)

theorem capturing_denotes : ∃ h ss, ofPlan capturing = .ok h ∧ capturing.IsJson ∧
    outline? h.code = some ss ∧
    Denotes ss "props_last_runtime" ⟨nodeModule "props-last", "execute", "props_last_runtime"⟩ ∧
    ¬ Denotes ss "props_runtime" ⟨nodeModule "props", "execute", "props_runtime"⟩ := by
  obtain ⟨h, hp⟩ := exists_eq_ok (x := ofPlan capturing) (by cbv)
  obtain ⟨ha, hm⟩ := capturing_names hp
  obtain ⟨ss, hss, -, hactions, -⟩ := alias_denotes_iff hp capturing_isJson
  have hdenotes : ∀ kind ∈ h.kinds,
      Denotes ss (h.aliasOf kind) ⟨nodeModule kind, "execute", h.aliasOf kind⟩ ↔
        h.aliasOf kind ∉ h.madeNames := by
    intro kind hk
    rw [kinds_eq hp] at hk
    obtain ⟨s, hs, rfl⟩ := mem_usedKinds.mp hk
    exact (hactions s hs).2
  have hlast := hdenotes "props-last" (by simp [kinds, ha])
  have hprops := hdenotes "props" (by simp [kinds, ha])
  simp only [aliasOf, ha, hm] at hlast hprops
  exact ⟨h, ss, hp, capturing_isJson, hss, hlast.mpr (by decide),
    fun hd => hprops.mp hd (by decide)⟩

/-- What executes a kind is imported under a name that `fetch` binds. -/
theorem props_runtime_bound : ∃ h ss, ofPlan capturing = .ok h ∧ outline? h.code = some ss ∧
    ⟨nodeModule "props", "execute", "props_runtime"⟩ ∈ importsIn ss ∧
    "props_runtime" ∈ gather boundBy (coroutine "fetch" ss) := by
  obtain ⟨h, hp⟩ := exists_eq_ok (x := ofPlan capturing) (by cbv)
  obtain ⟨ha, hm⟩ := capturing_names hp
  have hk : "props" ∈ h.kinds := by simp [kinds, ha]
  have hbound := alias_bound_iff hp hk
  simp only [aliasOf, ha, hm] at hbound
  refine ⟨h, h.script, hp, outline_code hp (isJson_ofPlan hp capturing_isJson), ?_,
    hbound.mpr (by decide)⟩
  rw [importsIn_script, ha]
  simp

end Workflow.Handler
