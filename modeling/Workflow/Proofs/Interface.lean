/-
The declared interface of a handler: what its text imports, calls and hands to
actions.

The imports are written from tables that are filled beside the text. Read back from
the text, they agree with it: what is called is bound, once, and nothing of the
runtime is imported that is not called (`interface_matches`).
-/
import Workflow.Proofs.Capture
import Workflow.Proofs.Embedding

namespace Workflow

namespace Outline

theorem callsOf_name {name : String} (h : '_' ∈ name.toList) (rest : List Lexeme) :
    callsOf (.word name :: rest) = calls (.word name :: rest) := by
  refine if_neg ?_
  rintro (rfl | rfl)
  · exact absurd h (by decide)
  · exact absurd h (by decide)

end Outline

namespace Handler

open Outline
open Outline.Lexeme (word mark text)

/-! ## What guards and blocks call -/

/-- What can be called without an import: methods of values, and functions that are always there. -/
def freeCalls : List String :=
  ["context.result", "context.set_result", "env.get", "logger.error", "logger.get_logs",
   "logger.info", "request.header", "dict", "len", "list", "range", "str"]

/-- What the statements of a block call, those of the blocks in it apart. -/
def ownCalls (h : Handler) : Block → List String
  | .trigger _ | .unsupported _ | .unreadable .. => ["logger.info"]
  | .action s => "logger.info" :: ((Block.action s).helpers.map (·.name) ++
      [h.aliasOf s.kind, "context.set_result", "logger.info"])
  | .branch .. | .subject _ => ["logger.info", "evaluate_expression"]
  | .select _ arms _ => ["logger.info", "evaluate_expression"] ++ arms.map fun _ => "str"
  | .loop .. => ["logger.info", "list", "evaluate_expression", "range", "len"]
  | .join s => ["logger.info", h.continuationName s.id]

theorem calls_armTests (target : String) {keyword : String} (hk : keyword ∈ ["if", "elif"])
    (arms : List (String × List Block)) :
    (armTests target keyword arms).flatMap callsOf = arms.map fun _ => "str" := by
  induction arms generalizing keyword with
  | nil => rfl
  | cons arm rest ih =>
    have htest : callsOf (test keyword
        (call "str" [word target] ++ [mark '=', mark '=', text (Text.quoted arm.1)])) = ["str"] := by
      simp only [List.mem_cons, List.not_mem_nil, or_false] at hk
      rcases hk with rfl | rfl <;> rfl
    rw [armTests, List.flatMap_cons, htest, ih (by simp)]
    rfl

/-- A literal calls nothing. -/
theorem paren_notMem_literal {data : Names} (hj : (Value.ofFields data).isJson) :
    '(' ∉ marks (literalParts data) := fun hm =>
  absurd ((literalParts_tame hj).2 _ hm) (by decide)

theorem calls_config {s : Step} (hj : (Value.ofFields s.data).isJson) :
    calls (configParts s) = (Block.action s).helpers.map (·.name) := by
  have hnone := paren_notMem_literal hj
  rw [configParts, Block.helpers]
  by_cases hd : isDynamic s
  · rw [if_pos hd, if_pos hd, call, calls_word_mark, calls_eq_nil (by simpa using hnone)]
    rfl
  · rw [if_neg hd, if_neg hd]
    exact calls_eq_nil hnone

theorem calls_formula {target : String} (ht : '_' ∈ target.toList) (formula : String) :
    callsOf (assign target (evaluation formula)) = ["evaluate_expression"] := by
  rw [assign, callsOf_name ht]
  rfl

theorem calls_own (h : Handler) {b : Block}
    (hj : ∀ s, b = .action s → (Value.ofFields s.data).isJson) :
    gather callsOf (ownScript h b) = ownCalls h b := by
  cases b with
  | trigger s | unsupported s | unreadable s fault | join s => rfl
  | action s =>
    have hprops : callsOf (assign (h.propsVariable s) (configParts s)) =
        (Block.action s).helpers.map (·.name) := by
      rw [assign, callsOf_name (by simp [propsVariable]), calls_word_mark, calls_config (hj s rfl)]
      rfl
    have hresult : callsOf (assign (h.resultVariable s) (actionCall h s)) = [h.aliasOf s.kind] := by
      rw [assign, callsOf_name (by simp [resultVariable])]
      rfl
    rw [ownScript, gather_append, actionScript, gather_onLevel, List.flatMap_cons, List.flatMap_cons,
      List.flatMap_cons, hprops, hresult]
    rfl
  | branch s yes no =>
    rw [ownScript, gather_append, gather_append, formulaScript, gather_cons, onLevel,
      calls_formula (underscore_condition h s)]
    rfl
  | subject s =>
    rw [ownScript, gather_append, formulaScript, gather_cons, onLevel,
      calls_formula (underscore_subject h s)]
    rfl
  | select s arms other =>
    rw [ownScript, gather_append, gather_append, gather_append, formulaScript, gather_cons, onLevel,
      calls_formula (underscore_subject h s), gather_onLevel, calls_armTests _ List.mem_cons_self]
    exact List.append_nil _
  | loop s body =>
    have hitems : callsOf (assign (h.itemsVariable s)
        (call "list" (evaluation s.iterator ++ [word "or", mark '[', mark ']']))) =
        ["list", "evaluate_expression"] := by
      rw [assign, callsOf_name (by simp [itemsVariable])]
      rfl
    have htaken : callsOf (assignVariable (Text.quoted s.itemVariable) (takenParts h s)) = [] := by
      unfold takenParts
      split <;> rfl
    rw [ownScript, gather_append, gather_append, loopHeadScript, loopVariablesScript, gather_onLevel,
      gather_onLevel]
    simp only [List.flatMap_cons, hitems, htaken]
    rfl

/-- A block calls its functions of the runtime, what needs no import, an action what executes its
kind, and a join its continuation. -/
theorem mem_ownCalls {h : Handler} {b : Block} {name : String} (hn : name ∈ ownCalls h b) :
    name ∈ b.helpers.map (·.name) ∨ name ∈ freeCalls ∨
      (∃ s, b = .action s ∧ name = h.aliasOf s.kind) ∨
      ∃ s, b = .join s ∧ name = h.continuationName s.id := by
  cases b <;> simp [ownCalls, freeCalls, Block.helpers, Helper.name] at hn ⊢
  all_goals grind

theorem helper_mem_ownCalls (h : Handler) {b : Block} {x : Helper} (hx : x ∈ b.helpers) :
    x.name ∈ ownCalls h b := by
  cases b <;> simp [ownCalls, Block.helpers] at hx ⊢
  all_goals grind [Helper.name]

/-- What the statements of a guard call. -/
def guardCalls : Guard → List String
  | .manual =>
    ["bearer_token", "create_error_response", "logger.get_logs", "parse_json_body", "now_iso"]
  | .webhook _ access =>
    ["create_error_response", "logger.get_logs"] ++ match access with
      | .open => ["read_body", "dict", "dict"]
      | .token =>
        ["bearer_token", "create_error_response", "logger.get_logs", "read_body", "dict", "dict"]
      | .signature _ =>
        ["env.get", "create_error_response", "logger.get_logs", "verify_signature",
         "request.header", "create_error_response", "logger.get_logs", "read_body", "dict", "dict"]
      | .misconfigured => ["create_error_response", "logger.get_logs"]
  | .cron _ condition =>
    ["create_error_response", "logger.get_logs", "parse_json_body", "now_iso"] ++
      if condition.isSome then ["evaluate_expression", "logger.info", "create_empty_response"] else []

theorem paren_notMem_items (items : List String) : '(' ∉ marks (itemParts items) := by
  induction items with
  | nil => simp [itemParts]
  | cons item rest ih =>
    cases rest with
    | nil => simp [itemParts]
    | cons next rest => simpa [itemParts] using ih

theorem calls_guard (guard : Guard) (n : Nat) :
    gather callsOf (guardScript guard n) = guardCalls guard := by
  cases guard with
  | manual => rfl
  | webhook methods access =>
    have hmethods : callsOf (test "if" ([word "request.method", word "not", word "in", mark '['] ++
        itemParts methods ++ [mark ']'])) = [] := by
      have hif : ∀ rest, callsOf (word "if" :: rest) = calls (word "if" :: rest) := fun _ => rfl
      rw [test, hif]
      refine calls_eq_nil ?_
      simpa using paren_notMem_items methods
    rw [guardScript, demandScript, gather_append, gather_cons, onLevel, hmethods]
    cases access <;> rfl
  | cron schedule condition => cases condition <;> rfl

/-- A guard calls its functions of the runtime, and else only what needs no import. -/
theorem mem_guardCalls {guard : Guard} {name : String} (hn : name ∈ guardCalls guard) :
    name ∈ guard.helpers.map (·.name) ∨ name ∈ freeCalls := by
  cases guard with
  | manual => simp [guardCalls, freeCalls, Guard.helpers, Helper.name] at hn ⊢; grind
  | webhook methods access =>
    cases access <;> simp [guardCalls, freeCalls, Guard.helpers, Helper.name] at hn ⊢ <;> grind
  | cron schedule condition =>
    cases condition <;> simp [guardCalls, freeCalls, Guard.helpers, Helper.name] at hn ⊢ <;> grind

theorem helper_mem_guardCalls {guard : Guard} {x : Helper} (hx : x ∈ guard.helpers) :
    x.name ∈ guardCalls guard := by
  cases guard with
  | manual => simp [guardCalls, Guard.helpers] at hx ⊢; grind [Helper.name]
  | webhook methods access =>
    cases access <;> simp [guardCalls, Guard.helpers] at hx ⊢ <;> grind [Helper.name]
  | cron schedule condition =>
    cases condition <;> simp [guardCalls, Guard.helpers] at hx ⊢ <;> grind [Helper.name]

/-! ## Functions of the runtime -/

theorem Helper.mem_sorted (x : Helper) : x ∈ Helper.sorted := by cases x <;> decide

theorem Helper.name_inj {x y : Helper} (he : x.name = y.name) : x = y := by
  have hall : ∀ x ∈ Helper.sorted, ∀ y ∈ Helper.sorted, x.name = y.name → x = y := by decide
  exact hall x (mem_sorted x) y (mem_sorted y) he

theorem Helper.sorted_nodup : (Helper.sorted.map Helper.name).Nodup := by decide

theorem helper_notMem_freeCalls (x : Helper) : x.name ∉ freeCalls := by cases x <;> decide

theorem helper_mem_fixedCalls (x : Helper) :
    x.name ∈ fixedCalls ↔ x ∈ [.createContext, .createJsonResponse, .handleError, .newId] := by
  cases x <;> decide

theorem not_prefix_fixed {cs : List Char} (h : ¬ ['c', 'o'] <+: cs) :
    ¬ ['c', 'o'] <+: (String.ofList cs).toList := by
  rwa [String.toList_ofList]

/-- No function of the runtime has the name of a continuation. -/
theorem helper_ne_continuationName (h : Handler) (x : Helper) (join : String) :
    x.name ≠ h.continuationName join := by
  intro he
  have hc : ['c', 'o'] <+: (h.continuationName join).toList := by
    rw [continuationName, String.toList_append]
    exact ⟨['n', 't', 'i', 'n', 'u', 'e', '_'] ++ _, rfl⟩
  have hx : ¬ ['c', 'o'] <+: x.name.toList := by
    cases x <;> exact not_prefix_fixed (by decide)
  exact hx (he ▸ hc)

/-- What a handler calls, where its actions have literals. -/
theorem mem_calledIn_iff {p : Plan} {h : Handler} (hp : ofPlan p = .ok h) (hj : h.IsJson)
    {name : String} : name ∈ calledIn (script h) ↔
      name ∈ fixedCalls ∨ name ∈ guardCalls h.guard ∨ ∃ b ∈ h.flow.written, name ∈ ownCalls h b := by
  rw [mem_calledIn_script hp, calls_guard]
  refine or_congr_right (or_congr_right (exists_congr fun b => and_congr_right fun hb => ?_))
  rw [calls_own]
  rintro s rfl
  exact hj s hb

/-- The functions of the runtime that are imported are those that are called. -/
theorem mem_helpers_iff {p : Plan} {h : Handler} (hp : ofPlan p = .ok h) (hj : h.IsJson)
    (x : Helper) : x ∈ h.helpers ↔ x.name ∈ calledIn (script h) := by
  have hused : x ∈ h.helpers ↔ x.name ∈ fixedCalls ∨ x ∈ h.guard.helpers ∨
      ∃ b ∈ h.flow.written, x ∈ b.helpers := by
    rw [helper_mem_fixedCalls]
    simp [helpers, Helper.mem_sorted, or_assoc]
  rw [hused, mem_calledIn_iff hp hj]
  refine or_congr_right (or_congr ⟨helper_mem_guardCalls, fun hx => ?_⟩
    (exists_congr fun b => and_congr_right fun hb => ⟨helper_mem_ownCalls h, fun hx => ?_⟩))
  · rcases mem_guardCalls hx with hx | hx
    · obtain ⟨y, hy, he⟩ := List.mem_map.mp hx
      exact Helper.name_inj he ▸ hy
    · exact absurd hx (helper_notMem_freeCalls x)
  · rcases mem_ownCalls hx with hx | hx | ⟨s, rfl, he⟩ | ⟨s, rfl, he⟩
    · obtain ⟨y, hy, he⟩ := List.mem_map.mp hx
      exact Helper.name_inj he ▸ hy
    · exact absurd hx (helper_notMem_freeCalls x)
    · have hk : s.kind ∈ h.kinds := kinds_eq hp ▸ mem_usedKinds.mpr ⟨s, hb, rfl⟩
      exact absurd (he ▸ suffix_occurs hp (mem_aliases hk)) (helper_lacks_suffix x)
    · exact absurd he (helper_ne_continuationName h x s.id)

/-! ## Imports -/

/-- One import binds the name of a function of the runtime that is called. -/
theorem helper_imported {p : Plan} {h : Handler} (hp : ofPlan p = .ok h) {x : Helper}
    (hx : x ∈ h.helpers) :
    (importsIn (script h)).filter (·.name = x.name) = [⟨runtimeModule, x.name, x.name⟩] := by
  have hhelpers : h.helpers.filter (·.name = x.name) = [x] := by
    have hn : (h.helpers.map Helper.name).Nodup :=
      Helper.sorted_nodup.sublist (List.filter_sublist.map _)
    exact filter_eq_singleton hn hx fun d _ => by simp
  have hlogger : "Logger" ≠ x.name := by cases x <;> decide
  have hkinds : h.aliases.filter (·.2 = x.name) = [] := by
    refine List.filter_eq_nil_iff.mpr fun e he hname => helper_lacks_suffix x ?_
    exact of_decide_eq_true hname ▸ suffix_occurs hp he
  rw [importsIn_script, List.filter_append, List.filter_cons_of_neg (by simpa using hlogger),
    List.filter_map, List.filter_map]
  exact congrArg₂ (fun xs es => xs.map (fun x => (⟨runtimeModule, x.name, x.name⟩ : Import)) ++
    es.map fun e => ⟨nodeModule e.1, "execute", e.2⟩) hhelpers hkinds

theorem logger_imported {p : Plan} {h : Handler} (hp : ofPlan p = .ok h) :
    (importsIn (script h)).filter (·.name = "Logger") = [⟨loggerModule, "Logger", "Logger"⟩] := by
  have hhelpers : h.helpers.filter (·.name = "Logger") = [] := by
    refine List.filter_eq_nil_iff.mpr fun x _ => ?_
    cases x <;> decide
  have hkinds : h.aliases.filter (·.2 = "Logger") = [] := by
    refine List.filter_eq_nil_iff.mpr fun e he hname => ?_
    have hinfix := of_decide_eq_true hname ▸ suffix_occurs hp he
    exact fixed_lacks_suffix (by decide) hinfix
  rw [importsIn_script, List.filter_append, List.filter_cons_of_pos (by simp), List.filter_map,
    List.filter_map]
  exact congrArg₂ (fun xs es => xs.map (fun x => (⟨runtimeModule, x.name, x.name⟩ : Import)) ++
    ⟨loggerModule, "Logger", "Logger"⟩ :: es.map fun e => ⟨nodeModule e.1, "execute", e.2⟩) hhelpers
    hkinds

/-- The module of a kind is none of the runtime. -/
theorem nodeModule_ne_fixed (kind : String) {cs : List Char} (hc : cs.head? = some 'w') :
    nodeModule kind ≠ String.ofList cs := by
  intro he
  have hn : (nodeModule kind).toList.head? = some 'n' := by
    rw [nodeModule, String.toList_append, String.toList_append]
    rfl
  rw [he, String.toList_ofList, hc] at hn
  exact absurd hn (by decide)

theorem nodeModule_ne_runtime (kind : String) : nodeModule kind ≠ runtimeModule :=
  nodeModule_ne_fixed kind rfl

theorem nodeModule_ne_logger (kind : String) : nodeModule kind ≠ loggerModule :=
  nodeModule_ne_fixed kind rfl

theorem helpers_ne_nil (h : Handler) : h.helpers ≠ [] := by
  have hx : Helper.newId ∈ h.helpers := by simp [helpers, Helper.sorted]
  exact List.ne_nil_of_mem hx

/-- The modules that are imported, in the order in which the text names them first. -/
theorem imports_eq (h : Handler) :
    h.imports = ((importsIn (script h)).map (·.source)).eraseDups := by
  have hkinds : (h.aliases.map fun e => (⟨nodeModule e.1, "execute", e.2⟩ : Import)).map (·.source) =
      h.kinds.map nodeModule := by
    simp [kinds]
  have hruntime : ∀ m ∈ loggerModule :: h.kinds.map nodeModule, (!m == runtimeModule) = true := by
    refine List.forall_mem_cons.mpr ⟨by decide, List.forall_mem_map.mpr fun kind _ => ?_⟩
    simpa using nodeModule_ne_runtime kind
  have hlogger : ∀ m ∈ h.kinds.map nodeModule, (!m == loggerModule) = true := by
    refine List.forall_mem_map.mpr fun kind _ => ?_
    simpa using nodeModule_ne_logger kind
  rw [importsIn_script, List.map_append, List.map_cons, hkinds]
  obtain ⟨x, rest, hx⟩ := List.exists_cons_of_ne_nil (helpers_ne_nil h)
  have hrest : ((rest.map fun x => (⟨runtimeModule, x.name, x.name⟩ : Import)).map (·.source)).filter
      (fun m => !m == runtimeModule) = [] := by
    simp
  rw [hx, List.map_cons, List.map_cons, List.cons_append, List.eraseDups_cons, List.filter_append,
    hrest, List.filter_eq_self.mpr hruntime, List.nil_append, List.eraseDups_cons,
    List.filter_eq_self.mpr hlogger]
  rfl

/-- The names that are imported from the runtime are those of its functions that are called. -/
theorem runtime_members {p : Plan} {h : Handler} (hp : ofPlan p = .ok h) (hj : h.IsJson) :
    ((importsIn (script h)).filter (·.source = runtimeModule)).map (·.member) =
      (Helper.sorted.map (·.name)).filter (· ∈ calledIn (script h)) := by
  have hhelpers : (h.helpers.map fun x => (⟨runtimeModule, x.name, x.name⟩ : Import)).filter
      (·.source = runtimeModule) = h.helpers.map fun x => ⟨runtimeModule, x.name, x.name⟩ :=
    List.filter_eq_self.mpr (List.forall_mem_map.mpr fun _ _ => by simp)
  have hkinds : (h.aliases.map fun e => (⟨nodeModule e.1, "execute", e.2⟩ : Import)).filter
      (·.source = runtimeModule) = [] :=
    List.filter_eq_nil_iff.mpr (List.forall_mem_map.mpr fun e _ => by
      simpa using nodeModule_ne_runtime e.1)
  have hcalled : Helper.sorted.filter (fun x => x.name ∈ calledIn (script h)) = h.helpers := by
    rw [helpers]
    refine List.filter_congr fun x _ => decide_eq_decide.mpr
      ((mem_helpers_iff hp hj x).symm.trans ?_)
    simp [helpers, Helper.mem_sorted]
  rw [importsIn_script, List.filter_append, hhelpers, List.filter_cons_of_neg (by decide), hkinds,
    List.append_nil, List.map_map, List.filter_map, ← hcalled]
  rfl

/-! ## The interface -/

theorem mem_coroutine {name : String} {ss : List Statement} {s : Statement}
    (hs : s ∈ coroutine name ss) : s ∈ ss := by
  unfold coroutine at hs
  split at hs
  · exact nomatch hs
  · next head rest he =>
    have hdrop : s ∈ ss.dropWhile fun s => !isHeadOf name s.parts := by
      rw [he]
      exact List.cons_subset_cons _ (List.takeWhile_subset _) hs
    exact (List.dropWhile_sublist _).subset hdrop

/-- A join that is written calls a continuation that `fetch` defines. -/
theorem continuation_bound {p : Plan} {h : Handler} (hp : ofPlan p = .ok h) {s : Step}
    (hs : .join s ∈ h.flow.written) :
    h.continuationName s.id ∈ gather boundBy (script h) := by
  obtain ⟨-, -, -, -, hf, -⟩ := ofPlan_eq_ok hp
  have hawaits : h.flow.Awaits s.id := by
    rcases (Flow.mem_written hf).mp hs with hs | ⟨c, hc, hs⟩
    · exact .inl (mem_joinsOf.mpr ⟨s, hs, rfl⟩)
    · exact .inr ⟨c, hc, mem_joinsOf.mpr ⟨s, hs, rfl⟩⟩
  obtain ⟨c, hc, hid⟩ := List.mem_map.mp (Flow.Awaits.mem hf hawaits)
  have hbound := (mem_boundIn_fetch hp).mpr
    (.inr (.inl (List.mem_map.mpr ⟨c, hc, congrArg h.continuationName hid⟩)))
  obtain ⟨t, ht, hname⟩ := List.mem_flatMap.mp hbound
  exact List.mem_flatMap.mpr ⟨t, mem_coroutine ht, hname⟩

/-- What is called is known: it needs no import, or the text defines it, or one import binds it. -/
theorem called_known {p : Plan} {h : Handler} (hp : ofPlan p = .ok h) (hj : h.IsJson)
    {name : String} (hn : name ∈ calledIn (script h)) :
    name ∈ freeCalls ∨ name ∈ gather boundBy (script h) ∨
      ∃ i, (importsIn (script h)).filter (·.name = name) = [i] := by
  have hhelper : ∀ x : Helper, x.name ∈ calledIn (script h) →
      ∃ i, (importsIn (script h)).filter (·.name = x.name) = [i] := fun x hx =>
    ⟨_, helper_imported hp ((mem_helpers_iff hp hj x).mpr hx)⟩
  have hfixed : ∀ name ∈ fixedCalls, name ∈ freeCalls ∨ name ∈ Helper.sorted.map (·.name) ∨
      name = "Logger" ∨ name = "WorkflowHandler" := by
    decide
  rcases (mem_calledIn_iff hp hj).mp hn with hf | hg | ⟨b, hb, ho⟩
  · rcases hfixed name hf with hf | hx | rfl | rfl
    · exact .inl hf
    · obtain ⟨x, -, rfl⟩ := List.mem_map.mp hx
      exact .inr (.inr (hhelper x hn))
    · exact .inr (.inr ⟨_, logger_imported hp⟩)
    · refine .inr (.inl (List.mem_flatMap.mpr ⟨onLevel 0 [word "class", word "WorkflowHandler",
        mark ':'], by simp [script], List.mem_singleton.mpr rfl⟩))
  · rcases mem_guardCalls hg with hx | hx
    · obtain ⟨x, -, rfl⟩ := List.mem_map.mp hx
      exact .inr (.inr (hhelper x hn))
    · exact .inl hx
  · rcases mem_ownCalls ho with hx | hx | ⟨s, rfl, rfl⟩ | ⟨s, rfl, rfl⟩
    · obtain ⟨x, -, rfl⟩ := List.mem_map.mp hx
      exact .inr (.inr (hhelper x hn))
    · exact .inl hx
    · have hk : s.kind ∈ h.kinds := kinds_eq hp ▸ mem_usedKinds.mpr ⟨s, hb, rfl⟩
      exact .inr (.inr ⟨_, alias_imported hp hk⟩)
    · exact .inr (.inl (continuation_bound hp hb))

/-- The secrets of a node are handed on if its kind is used. -/
theorem mem_secrets_of_kind {p : Plan} {h : Handler} (hp : ofPlan p = .ok h) {s : Step}
    (hs : s ∈ p.steps) (hk : s.kind ∈ h.kinds) {name : String} (hn : name ∈ s.secrets) :
    name ∈ h.secrets := by
  rw [(ofPlan_aliases hp).2, List.mem_mergeSort, List.mem_eraseDups, List.mem_flatMap]
  exact ⟨s, List.mem_filter.mpr ⟨hs, decide_eq_true (kinds_eq hp ▸ hk)⟩, hn⟩

/-- The secrets of an action that is written are handed to it. -/
theorem mem_secrets {p : Plan} {h : Handler} (hp : ofPlan p = .ok h) {s : Step}
    (hs : .action s ∈ h.flow.written) {name : String} (hn : name ∈ s.secrets) :
    name ∈ h.secrets := by
  obtain ⟨-, -, -, -, hf, -⟩ := ofPlan_eq_ok hp
  have hstep : s ∈ p.steps := List.mem_of_find?_eq_some (Flow.step_of_written hf hs).1
  have hkind : s.kind ∈ h.kinds := kinds_eq hp ▸ mem_usedKinds.mpr ⟨s, hs, rfl⟩
  exact mem_secrets_of_kind hp hstep hkind hn

/-- What a handler declares agrees with the statements of its text. -/
structure Declared (p : Plan) (h : Handler) (ss : List Statement) : Prop where
  /-- What is called needs no import, or is defined in the text, or is bound by one import. -/
  called : ∀ name ∈ calledIn ss, name ∈ freeCalls ∨ name ∈ gather boundBy ss ∨
    ∃ i, (importsIn ss).filter (·.name = name) = [i]
  /-- A function of the runtime that is called is bound by one import, which takes it from there. -/
  helper : ∀ x : Helper, x.name ∈ calledIn ss →
    (importsIn ss).filter (·.name = x.name) = [⟨runtimeModule, x.name, x.name⟩]
  /-- No function of the runtime is imported that is not called. -/
  runtime : ((importsIn ss).filter (·.source = runtimeModule)).map (·.member) =
    (Helper.sorted.map (·.name)).filter (· ∈ calledIn ss)
  /-- What executes the kind of an action that is written is called, and is bound by one import. -/
  action : ∀ s, .action s ∈ h.flow.written → h.aliasOf s.kind ∈ calledIn ss ∧
    (importsIn ss).filter (·.name = h.aliasOf s.kind) =
      [⟨nodeModule s.kind, "execute", h.aliasOf s.kind⟩]
  /-- The blocks are written as the flow is walked, a continuation where it is first reached. -/
  order : Built p [] ((visitsOf 0 h.flow.main).map (⟨[], ·⟩)) h.flow.continuations h.flow.written
  /-- The kinds that are used are those of the actions that are written, each at its first place. -/
  kinds : h.kinds.Nodup ∧ h.kinds = (h.flow.written.filterMap fun
    | .action s => some s.kind
    | _ => none).eraseDups
  /-- The modules are those that the text imports from. -/
  modules : h.imports = ((importsIn ss).map (·.source)).eraseDups
  /-- Every secret of an action that is written is read from the environment under its name. -/
  secrets : ∃ names : List String, onLevel 2 (assign "secrets"
      (mark '\x7b' :: (names.flatMap secretEntry ++ [mark '\x7d']))) ∈ coroutine "fetch" ss ∧
    ∀ s, .action s ∈ h.flow.written → ∀ name ∈ s.secrets, name ∈ names

/-- **The declared interface of a handler matches its text.** -/
theorem interface_matches {p : Plan} {h : Handler} (hp : ofPlan p = .ok h) (hj : p.IsJson) :
    ∃ ss, outline? h.code = some ss ∧ Declared p h ss := by
  obtain ⟨-, -, -, -, hf, -⟩ := ofPlan_eq_ok hp
  have hj := isJson_ofPlan hp hj
  refine ⟨h.script, outline_code hp hj, ?_⟩
  constructor
  case called => exact fun name hn => called_known hp hj hn
  case helper => exact fun x hx => helper_imported hp ((mem_helpers_iff hp hj x).mpr hx)
  case runtime => exact runtime_members hp hj
  case action =>
    intro s hs
    have hk : s.kind ∈ h.kinds := kinds_eq hp ▸ mem_usedKinds.mpr ⟨s, hs, rfl⟩
    refine ⟨(mem_calledIn_iff hp hj).mpr (.inr (.inr ⟨_, hs, ?_⟩)), alias_imported hp hk⟩
    simp [ownCalls]
  case order => exact (flowOf_eq_ok hf).2
  case kinds =>
    rw [kinds_eq hp]
    exact ⟨Bundle.nodup_eraseDups _, rfl⟩
  case modules => exact imports_eq h
  case secrets =>
    refine ⟨h.secrets, ?_, fun s hs name hn => mem_secrets hp hs hn⟩
    rw [coroutine_fetch]
    simp [fetchScript, secretsScript]

theorem hostile_interface : ∃ h ss, ofPlan hostile = .ok h ∧ hostile.IsJson ∧
    outline? h.code = some ss ∧ Declared hostile h ss := by
  obtain ⟨h, hp⟩ := hostile_handler
  obtain ⟨ss, hss, hd⟩ := interface_matches hp hostile_isJson
  exact ⟨h, ss, hp, hostile_isJson, hss, hd⟩

end Handler

end Workflow
