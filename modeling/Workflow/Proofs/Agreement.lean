/-
Whether a handler depends on how a configuration is written.

The configuration of a trigger or of a control-flow construct is read twice: by the
check of its kind, which accepts a value in several forms, and by the generator. The
text of the handler is the same for the configuration as it is written and as the
check reads it, unless a webhook's flag that demands signatures is a text that means
no, or the number of items that a loop takes at once is above one and not written as
an integer (`code_configured_iff`).
-/
import Workflow.Proofs.Coercion
import Workflow.Proofs.Reconfiguration

namespace Workflow

/-! ## Configurations that are accepted -/

theorem hasFormula_field? {entries : List (Value × Value)} (h : entriesHaveFormula entries = false)
    {name : String} {v : Value} (hv : Value.field? name entries = some v) :
    hasFormula v = false := by
  induction entries with
  | nil => exact nomatch hv
  | cons e rest ih =>
    obtain ⟨k, w⟩ := e
    rw [entriesHaveFormula, Bool.or_eq_false_iff] at h
    cases k with
    | str key =>
      rw [Value.field?] at hv
      split at hv
      · cases hv
        exact h.1
      · exact ih h.2 hv
    | _ => exact ih h.2 hv

/-- Without formulas no problem is put off. -/
theorem not_isDeferred {config : Value} (h : hasFormula config = false) (q : Problem) :
    q.isDeferred config = false := by
  unfold Problem.isDeferred
  split
  · next name path entries hpath =>
    cases hv : Value.field? name entries with
    | none => rfl
    | some v =>
      have hf := hasFormula_field? h hv
      cases v with
      | str s => exact hf
      | _ => rfl
  · rfl

theorem config_eq_openRecord {k : Kind} (hk : k ∈ Kind.shipped) :
    ∃ name properties, k.config = Check.openRecord name properties := by
  simp only [Kind.shipped, List.mem_cons, List.not_mem_nil, or_false] at hk
  rcases hk with rfl | rfl | rfl | rfl | rfl | rfl | rfl | rfl | rfl | rfl | rfl <;>
    exact ⟨_, _, rfl⟩

/-- A configuration without formulas in which no problem is found is read. -/
theorem config_eq_ok {kind : String} {k : Kind} {data : Names} (hk : Kind.find? kind = some k)
    (hplain : hasFormula (Value.ofFields data) = false)
    (hvalid : configProblem kind (Value.ofFields data) = none) :
    ∃ parsed, k.config (Value.ofFields data) = .ok (Value.ofFields parsed) := by
  have hshipped := List.mem_of_find?_eq_some hk
  rw [configProblem, hk] at hvalid
  cases hc : k.config (Value.ofFields data) with
  | ok v =>
    obtain ⟨name, properties, hrecord⟩ := config_eq_openRecord hshipped
    rw [hrecord] at hc
    obtain ⟨parsed, rfl⟩ := Check.openRecord_ofFields hc
    exact ⟨parsed, rfl⟩
  | bad problems =>
    have hnone : problems.filter (fun q => !q.isDeferred (Value.ofFields data)) = problems :=
      List.filter_eq_self.mpr fun q _ => by rw [not_isDeferred hplain]; rfl
    simp only [hc, hnone, Option.map_eq_none_iff, List.head?_eq_none_iff] at hvalid
    have hexplained := Check.explains_shipped hshipped (Value.ofFields data)
    rw [hc, hvalid] at hexplained
    exact absurd rfl hexplained

/-- What is demanded of the configuration of a control-flow construct. -/
def Structure.config : Structure → Check Value
  | branch => Kind.branchConfig
  | select => Kind.selectConfig
  | loop => Kind.loopConfig
  | join => Check.openRecord "MergeProperties" []

/-- What is demanded of the configuration of a trigger. -/
def TriggerKind.config : TriggerKind → Check Value
  | manual => Check.openRecord "ManualTriggerProperties" []
  | webhook => Kind.webhookConfig
  | cron => Kind.cronConfig

theorem find?_of_structure {kind : String} {c : Structure} (h : Structure.ofKind? kind = some c) :
    ∃ k, Kind.find? kind = some k ∧ k.config = c.config := by
  have hkind : c.kind = kind := by simpa using List.find?_some h
  subst hkind
  cases c <;> exact ⟨_, rfl, rfl⟩

theorem find?_of_trigger {kind : String} {c : TriggerKind} (h : TriggerKind.ofKind? kind = some c) :
    ∃ k, Kind.find? kind = some k ∧ k.config = c.config := by
  have hkind : c.kind = kind := by simpa using List.find?_some h
  subst hkind
  cases c <;> exact ⟨_, rfl, rfl⟩

/-! ## Steps -/

/-- The construct that a walk makes of a step of the given form. -/
def Step.Form.construct? : Step.Form → Option Structure
  | .branch => some .branch
  | .subject | .select _ | .unreadable _ => some .select
  | .loop => some .loop
  | .join => some .join
  | .trigger | .unsupported | .action => none

theorem Step.ofKind?_of_form {s : Step} {c : Structure} (h : s.form.construct? = some c) :
    Structure.ofKind? s.kind = some c := by
  unfold Step.form at h
  split at h
  · cases h
  split at h
  · split at h
    case h_2 hk => split at h <;> exact hk.trans h
    case h_5 => cases h
    all_goals exact ‹Structure.ofKind? s.kind = _›.trans h
  · cases h

theorem Step.form_ne_action {s : Step} (h : s.isTrigger ∨ s.structural) : s.form ≠ .action := by
  intro hf
  unfold Step.form at hf
  split at hf
  · cases hf
  · next ht =>
    rw [if_pos (h.resolve_left ht)] at hf
    split at hf
    case h_2 => split at hf <;> cases hf
    all_goals cases hf

/-- A guard with other access to a webhook. -/
def Handler.Guard.withAccess (access : Access) : Guard → Guard
  | .webhook methods _ => .webhook methods access
  | guard => guard

/-- The check of a step's kind reads its configuration as the given fields. -/
structure Step.ReadAs (s : Step) (parsed : Names) : Prop where
  json : (Value.ofFields s.data).isJson
  read : ∃ k, Kind.find? s.kind = some k ∧
    k.config (Value.ofFields s.data) = .ok (Value.ofFields parsed)

namespace Step.ReadAs

variable {s : Step} {parsed : Names} (h : s.ReadAs parsed)
include h

theorem construct {c : Structure} (hc : Structure.ofKind? s.kind = some c) :
    c.config (Value.ofFields s.data) = .ok (Value.ofFields parsed) := by
  obtain ⟨k, hk, hr⟩ := h.read
  obtain ⟨k', hk', he⟩ := find?_of_structure hc
  cases hk.symm.trans hk'
  exact he ▸ hr

theorem trigger {c : TriggerKind} (hc : TriggerKind.ofKind? s.kind = some c) :
    c.config (Value.ofFields s.data) = .ok (Value.ofFields parsed) := by
  obtain ⟨k, hk, hr⟩ := h.read
  obtain ⟨k', hk', he⟩ := find?_of_trigger hc
  cases hk.symm.trans hk'
  exact he ▸ hr

theorem form : (s.withData parsed).form = s.form := by
  have hkind : (s.withData parsed).kind = s.kind := rfl
  unfold Step.form
  rw [hkind]
  cases hc : Structure.ofKind? s.kind with
  | none => rfl
  | some c =>
    cases c with
    | select =>
      rw [Step.cases_parsed h.json (h.construct hc)]
      rfl
    | branch | loop | join => rfl

/-- What a handler demands does not depend on how it is written, access to a webhook apart. -/
theorem guard {kind : TriggerKind} (hk : TriggerKind.ofKind? s.kind = some kind) :
    Handler.Guard.ofStep kind (s.withData parsed) =
      (Handler.Guard.ofStep kind s).map
        (Handler.Guard.withAccess (Handler.Access.ofStep (s.withData parsed))) := by
  have hr := h.trigger hk
  cases kind with
  | manual => rfl
  | webhook =>
    simp only [Handler.Guard.ofStep, Step.methods_parsed h.json hr]
    cases s.methods <;> rfl
  | cron =>
    simp only [Handler.Guard.ofStep, Step.schedule_parsed h.json hr,
      Step.runCondition?_parsed h.json hr]
    rfl

end Step.ReadAs

/-- A step with another configuration, if it has the given id. -/
def Step.configure (id : String) (data : Names) (s : Step) : Step :=
  if s.id = id then s.withData data else s

theorem Step.configure_self (s : Step) (data : Names) : s.configure s.id data = s.withData data :=
  if_pos rfl

/-- A plan in which the step of an id is configured otherwise. -/
def Plan.configure (p : Plan) (id : String) (data : Names) : Plan :=
  p.mapSteps (Step.configure id data)

/-! ## Handlers -/

namespace Handler

open Outline
open Outline.Lexeme (word mark text)

variable {p : Plan} {s : Step} {parsed : Names} {h : Handler}

theorem sameShape_configure (hs : p.step? s.id = some s) (hread : s.ReadAs parsed) :
    p.SameShape (Step.configure s.id parsed) := by
  have hsame {α : Type} {g : Step → α} (hg : ∀ t, g (t.withData parsed) = g t) (t : Step) :
      g (t.configure s.id parsed) = g t := by
    unfold Step.configure
    split
    · exact hg t
    · rfl
  refine ⟨hsame fun _ => rfl, hsame fun _ => rfl, hsame fun _ => rfl, hsame fun _ => rfl,
    fun id t ht => ?_⟩
  by_cases he : t.id = s.id
  · have hts : t = s := by
      rw [Plan.step?_id ht] at he
      rw [he, hs] at ht
      exact (Option.some.inj ht).symm
    rw [hts, Step.configure_self, hread.form]
  · rw [Step.configure, if_neg he]

/-- Where the step of an id is written, it is the plan's step. -/
theorem eq_of_written (hp : ofPlan p = .ok h) (hs : p.step? s.id = some s) {b : Block}
    (hb : b ∈ h.flow.written) (he : b.step.id = s.id) : b.step = s ∧ b.form = s.form := by
  obtain ⟨-, -, -, -, hf, -⟩ := ofPlan_eq_ok hp
  obtain ⟨hstep, hform⟩ := Flow.step_of_written hf hb
  rw [he, hs] at hstep
  cases Option.some.inj hstep
  exact ⟨rfl, hform⟩

/-- A loop of the step takes another number of items at once than the check of its kind reads. -/
def MisreadsSize (h : Handler) (s : Step) : Prop :=
  (∃ body, .loop s body ∈ h.flow.written) ∧ s.SizeMisread

/-- The step is a webhook that demands signatures, though the check of its kind reads that it does
not. -/
def MisreadsFlag (h : Handler) (s : Step) : Prop :=
  h.trigger = s ∧ s.kind = TriggerKind.webhook.kind ∧ s.wantsToken = false ∧ s.SaysNo

/-- Unless the size of a loop is misread, what is shown of a step does not depend on how its
configuration is written. -/
theorem sameText_configure (hp : ofPlan p = .ok h) (hs : p.step? s.id = some s)
    (hrole : s.isTrigger ∨ s.structural) (hread : s.ReadAs parsed) (hsize : ¬ h.MisreadsSize s)
    {b : Block} (hb : b ∈ h.flow.written) : b.SameText (Step.configure s.id parsed) := by
  by_cases he : b.step.id = s.id
  · obtain ⟨hstep, hform⟩ := eq_of_written hp hs hb he
    have hconstruct {c : Structure} (hc : b.form.construct? = some c) :
        c.config (Value.ofFields s.data) = .ok (Value.ofFields parsed) :=
      hread.construct (Step.ofKind?_of_form (hform ▸ hc))
    cases b with
    | trigger | unsupported | join | unreadable => trivial
    | action t => exact absurd hform.symm (Step.form_ne_action hrole)
    | branch t yes no =>
      obtain rfl : t = s := hstep
      rw [Block.SameText, Step.configure_self]
      exact Step.condition_parsed hread.json (hconstruct rfl)
    | subject t =>
      obtain rfl : t = s := hstep
      rw [Block.SameText, Step.configure_self]
      exact Step.subject_parsed hread.json (hconstruct rfl)
    | select t arms other =>
      obtain rfl : t = s := hstep
      rw [Block.SameText, Step.configure_self]
      exact Step.subject_parsed hread.json (hconstruct rfl)
    | loop t body =>
      obtain rfl : t = s := hstep
      have hr := hconstruct rfl
      rw [Block.SameText, Step.configure_self]
      exact ⟨Step.iterator_parsed hread.json hr, Step.itemVariable_parsed hread.json hr,
        (Step.batchSize_eq_iff hread.json hr).mpr fun hm => hsize ⟨⟨body, hb⟩, hm⟩⟩
  · have hsame : b.step.configure s.id parsed = b.step := if_neg he
    cases b <;> simp_all [Block.SameText, Block.step]

/-- The guard of a handler whose step is configured otherwise. -/
def guardConfigured (p : Plan) (s : Step) (parsed : Names) (guard : Guard) : Guard :=
  if p.entry = s.id then guard.withAccess (Access.ofStep (s.withData parsed)) else guard

theorem ofPlan_configure (hs : p.step? s.id = some s) (hread : s.ReadAs parsed) :
    ofPlan (p.configure s.id parsed) = (ofPlan p).map fun h =>
      h.mapSteps (Step.configure s.id parsed) (guardConfigured p s parsed h.guard) := by
  refine ofPlan_mapSteps (sameShape_configure hs hread) fun t kind ht hk => ?_
  have htid : t.id = p.entry := Plan.step?_id ht
  by_cases he : p.entry = s.id
  · have hts : t = s := by
      rw [he, hs] at ht
      exact (Option.some.inj ht).symm
    subst hts
    have hchange : guardConfigured p t parsed =
        Guard.withAccess (Access.ofStep (t.withData parsed)) := by
      funext guard
      exact if_pos he
    rw [Step.configure_self, hread.guard hk, hchange]
  · have hchange : guardConfigured p s parsed = id := by
      funext guard
      exact if_neg he
    rw [Step.configure, if_neg (htid ▸ he), hchange]
    cases Guard.ofStep kind t <;> rfl

/-! ## Access -/

theorem access_of_saysNo (hread : s.ReadAs parsed)
    (hk : TriggerKind.ofKind? s.kind = some .webhook) (ht : s.wantsToken = false)
    (hno : s.SaysNo) :
    Access.ofStep (s.withData parsed) = .open ∧
      Access.ofStep s ≠ .open ∧ Access.ofStep s ≠ .token := by
  have hr := hread.trigger hk
  have hdiff : (s.withData parsed).wantsSignature ≠ s.wantsSignature := fun he =>
    (Step.wantsSignature_eq_iff hread.json hr).mp he hno
  have hwants : s.wantsSignature = true := by
    obtain ⟨t, ht, hflag⟩ := hno
    rw [Step.wantsSignature_of_lookup ht, Step.truthy_of_flagOfText hflag]
  have hwants' : (s.withData parsed).wantsSignature = false := by
    simpa [hwants] using hdiff
  refine ⟨?_, ?_⟩
  · rw [Access.ofStep, Step.wantsToken_parsed hread.json hr, ht, hwants']
    rfl
  · rw [Access.ofStep, ht, hwants]
    cases s.signingSecret? <;> simp

theorem access_parsed (hread : s.ReadAs parsed) (hk : TriggerKind.ofKind? s.kind = some .webhook)
    (hnot : ¬ (s.wantsToken = false ∧ s.SaysNo)) :
    Access.ofStep (s.withData parsed) = Access.ofStep s := by
  have hr := hread.trigger hk
  rw [Access.ofStep, Access.ofStep, Step.wantsToken_parsed hread.json hr,
    Step.signingSecret?_parsed hread.json hr]
  cases ht : s.wantsToken with
  | true => rfl
  | false =>
    have hno : ¬ s.SaysNo := fun hno => hnot ⟨ht, hno⟩
    rw [(Step.wantsSignature_eq_iff hread.json hr).mpr hno]

/-- The guard of a webhook. -/
theorem guard_of_webhook (hp : ofPlan p = .ok h)
    (hk : TriggerKind.ofKind? h.trigger.kind = some .webhook) :
    ∃ methods, h.guard = .webhook methods (Access.ofStep h.trigger) := by
  obtain ⟨kind, -, hkind, hguard, -⟩ := ofPlan_eq_ok hp
  cases hk.symm.trans hkind
  obtain ⟨methods, -, hm⟩ := bind_eq_ok.mp hguard
  exact ⟨methods, (Except.ok.inj hm).symm⟩

/-- Unless a flag is misread, what is demanded does not depend on how the configuration of a step
is written. -/
theorem guardConfigured_eq (hp : ofPlan p = .ok h) (hs : p.step? s.id = some s)
    (hread : s.ReadAs parsed) (hflag : ¬ h.MisreadsFlag s) :
    guardConfigured p s parsed h.guard = h.guard := by
  unfold guardConfigured
  split
  · next he =>
    obtain ⟨kind, htrigger, hkind, hguard, -⟩ := ofPlan_eq_ok hp
    have hts : h.trigger = s := by
      rw [he, hs] at htrigger
      exact (Option.some.inj htrigger).symm
    cases kind with
    | webhook =>
      obtain ⟨methods, hm⟩ := guard_of_webhook hp hkind
      rw [hts] at hkind
      have hname : s.kind = TriggerKind.webhook.kind := by
        simpa [eq_comm] using List.find?_some hkind
      rw [hm, Guard.withAccess, access_parsed hread hkind fun hno => hflag ⟨hts, hname, hno⟩, hts]
    | manual =>
      rw [← Except.ok.inj hguard]
      rfl
    | cron =>
      rw [← Except.ok.inj hguard]
      rfl
  · rfl

/-! ## Texts that agree -/

/-- Handlers of one text have the same statements. -/
theorem script_of_code {p' : Plan} {h' : Handler} (hp : ofPlan p = .ok h) (hj : h.IsJson)
    (hp' : ofPlan p' = .ok h') (hj' : h'.IsJson) (he : h'.code = h.code) :
    h'.script = h.script := by
  have hout := outline_code hp' hj'
  rw [he, outline_code hp hj] at hout
  exact (Option.some.inj hout).symm

theorem mem_helpers_of_guard (h : Handler) {x : Helper}
    (hx : x = .verifySignature ∨ x = .readBody) : x ∈ h.helpers ↔ x ∈ h.guard.helpers := by
  have hblocks : ∀ b : Block, x ∉ b.helpers := by
    intro b
    rcases hx with rfl | rfl <;> cases b <;> simp [Block.helpers]
  rcases hx with rfl | rfl <;> simp [helpers, Helper.mem_sorted, hblocks]

/-- Handlers of one text have the same functions. -/
theorem mem_helpers_of_code {p' : Plan} {h' : Handler} (hp : ofPlan p = .ok h) (hj : h.IsJson)
    (hp' : ofPlan p' = .ok h') (hj' : h'.IsJson) (he : h'.code = h.code) (x : Helper) :
    x ∈ h'.helpers ↔ x ∈ h.helpers := by
  rw [mem_helpers_iff hp hj, mem_helpers_iff hp' hj', script_of_code hp hj hp' hj' he]

/-- What follows the word that starts a loop. -/
def loopHeads : List Lexeme → List (List Lexeme)
  | .word keyword :: .word name :: rest => if keyword = "for" then [.word name :: rest] else []
  | _ => []

/-- The head of a loop, from its index on. -/
def loopHead (h : Handler) (s : Step) : List Lexeme :=
  word (h.indexVariable s) :: word "in" ::
    (call "range" ([word "0", mark ','] ++ call "len" [word (h.itemsVariable s)] ++
      [mark ',', word (Number.natText s.batchSize)]) ++ [mark ':'])

theorem loopHeads_armTests (target : String) {keyword : String} (hk : keyword ∈ ["if", "elif"])
    (arms : List (String × List Block)) :
    (armTests target keyword arms).flatMap loopHeads = [] := by
  induction arms generalizing keyword with
  | nil => rfl
  | cons arm rest ih =>
    have htest : loopHeads (test keyword
        (call "str" [word target] ++ [mark '=', mark '=', text (Text.quoted arm.1)])) = [] := by
      simp only [List.mem_cons, List.not_mem_nil, or_false] at hk
      rcases hk with rfl | rfl <;> rfl
    rw [armTests, List.flatMap_cons, htest, ih (by simp)]
    rfl

theorem mem_loopHeads_own (h : Handler) (b : Block) {x : List Lexeme} :
    x ∈ gather loopHeads (ownScript h b) ↔ ∃ s body, b = .loop s body ∧ x = loopHead h s := by
  cases b with
  | select s arms other =>
    have hown : gather loopHeads (ownScript h (.select s arms other)) = [] := by
      rw [ownScript, gather_append, gather_append, gather_onLevel,
        loopHeads_armTests _ List.mem_cons_self]
      rfl
    simp [hown]
  | loop s body =>
    have hown : gather loopHeads (ownScript h (.loop s body)) = [loopHead h s] := rfl
    simp [hown]
  | trigger s | unsupported s | action s | branch s | subject s | join s | unreadable s =>
    exact ⟨fun hx => (nomatch hx), fun ⟨_, _, he, _⟩ => (nomatch he)⟩

theorem loopHeads_guard (guard : Guard) : gather loopHeads (guardScript guard 3) = [] := by
  cases guard with
  | manual => rfl
  | webhook methods access => cases access <;> rfl
  | cron schedule condition => cases condition <;> rfl

/-- The loops that are shown in a handler. -/
theorem mem_loopHeads (hp : ofPlan p = .ok h) {x : List Lexeme} :
    x ∈ gather loopHeads (fetchScript h 2) ↔
      ∃ s body, .loop s body ∈ h.flow.written ∧ x = loopHead h s := by
  have hframe : frameParts.flatMap loopHeads = [] := rfl
  have hsecrets : gather loopHeads (secretsScript h.secrets 2) = [] := rfl
  have hheads : ∀ c : Continuation,
      loopHeads (coroutineHead (h.continuationName c.join) []) = [] := fun _ => rfl
  rw [mem_gather_fetch rfl hp]
  simp only [hframe, hsecrets, hheads, loopHeads_guard, mem_loopHeads_own, List.not_mem_nil,
    and_false, exists_false, false_or]
  constructor
  · rintro ⟨b, hb, s, body, rfl, hx⟩
    exact ⟨s, body, hb, hx⟩
  · rintro ⟨s, body, hb, hx⟩
    exact ⟨_, hb, s, body, rfl, hx⟩

/-- A loop shows its index and how many items it takes at once. -/
theorem loopHead_inj {h' : Handler} {s s' : Step} (he : loopHead h' s' = loopHead h s) :
    h'.variableOf s'.id = h.variableOf s.id ∧ s'.batchSize = s.batchSize := by
  unfold loopHead at he
  obtain ⟨hindex, hrest⟩ := List.cons.inj he
  refine ⟨append_inj_right (Lexeme.word.inj hindex), ?_⟩
  have hsize : Number.natText s'.batchSize = Number.natText s.batchSize := by
    simpa [call] using congrArg (fun xs : List Lexeme => (xs.reverse.drop 2).head?) hrest
  exact natText_inj hsize

/-- Handlers of one text show the same loops. -/
theorem loopHeads_of_code {p' : Plan} {h' : Handler} (hp : ofPlan p = .ok h) (hj : h.IsJson)
    (hp' : ofPlan p' = .ok h') (hj' : h'.IsJson) (he : h'.code = h.code) {s : Step}
    {body : List Block} (hb : .loop s body ∈ h'.flow.written) :
    ∃ t rest, .loop t rest ∈ h.flow.written ∧ loopHead h' s = loopHead h t := by
  have hfetch : fetchHead :: fetchScript h' 2 = fetchHead :: fetchScript h 2 := by
    rw [← coroutine_fetch, ← coroutine_fetch, script_of_code hp hj hp' hj' he]
  rw [← mem_loopHeads hp, ← (List.cons.inj hfetch).2, mem_loopHeads hp']
  exact ⟨s, body, hb, rfl⟩

/-- A handler whose step is configured otherwise. -/
def configured (p : Plan) (s : Step) (parsed : Names) (h : Handler) : Handler :=
  h.mapSteps (Step.configure s.id parsed) (guardConfigured p s parsed h.guard)

theorem isJson_configured (hp : ofPlan p = .ok h) (hj : h.IsJson) (hs : p.step? s.id = some s)
    (hrole : s.isTrigger ∨ s.structural) (parsed : Names) : (h.configured p s parsed).IsJson := by
  intro t ht
  obtain ⟨b, hb, he⟩ := List.mem_map.mp ht
  cases b with
  | action u =>
    have hne : u.id ≠ s.id := fun hid =>
      absurd (eq_of_written hp hs hb hid).2.symm (Step.form_ne_action hrole)
    have hu : u.configure s.id parsed = u := if_neg hne
    cases he
    rw [hu]
    exact hj u hb
  | _ => cases he

section

variable (hp : ofPlan p = .ok h) (hj : h.IsJson) (hread : s.ReadAs parsed)
  (hp' : ofPlan (p.configure s.id parsed) = .ok (h.configured p s parsed))
  (hj' : (h.configured p s parsed).IsJson) (hcode : (h.configured p s parsed).code = h.code)
include hp hj hread hp' hj' hcode

theorem not_misreadsFlag : ¬ h.MisreadsFlag s := by
  rintro ⟨hts, hkind, htoken, hno⟩
  have hk : TriggerKind.ofKind? s.kind = some .webhook := by rw [hkind]; rfl
  obtain ⟨-, htrigger, -⟩ := ofPlan_eq_ok hp
  obtain ⟨methods, hguard⟩ := guard_of_webhook hp (hts ▸ hk)
  rw [hts] at hguard
  obtain ⟨hopen, hclosed, htoken'⟩ := access_of_saysNo hread hk htoken hno
  have hguard' : (h.configured p s parsed).guard = .webhook methods .open := by
    have hentry : p.entry = s.id := by rw [← hts, Plan.step?_id htrigger]
    exact (if_pos hentry).trans (by rw [hguard, Guard.withAccess, hopen])
  have hsame {x : Helper} (hx : x = .verifySignature ∨ x = .readBody) :
      x ∈ (Guard.webhook methods .open).helpers ↔
        x ∈ (Guard.webhook methods (Access.ofStep s)).helpers := by
    rw [← hguard', ← hguard, ← mem_helpers_of_guard _ hx, ← mem_helpers_of_guard _ hx]
    exact mem_helpers_of_code hp hj hp' hj' hcode x
  cases ha : Access.ofStep s with
  | «open» => exact hclosed ha
  | token => exact htoken' ha
  | signature secret =>
    rw [ha] at hsame
    exact absurd ((hsame (.inl rfl)).mpr (by simp [Guard.helpers])) (by simp [Guard.helpers])
  | misconfigured =>
    rw [ha] at hsame
    exact absurd ((hsame (.inr rfl)).mp (by simp [Guard.helpers])) (by simp [Guard.helpers])

theorem not_misreadsSize (hs : p.step? s.id = some s) : ¬ h.MisreadsSize s := by
  rintro ⟨⟨body, hb⟩, hsize⟩
  obtain ⟨-, -, -, -, -, hnames⟩ := ofPlan_eq_ok hp
  have hb' : .loop (s.configure s.id parsed) (mapBlocks (Step.configure s.id parsed) body) ∈
      (h.configured p s parsed).flow.written := List.mem_map.mpr ⟨_, hb, rfl⟩
  obtain ⟨t, rest, ht, hhead⟩ := loopHeads_of_code hp hj hp' hj' hcode hb'
  obtain ⟨hname, hbatch⟩ := loopHead_inj hhead
  have hid {b : Block} (hb : b ∈ h.flow.written) : b.step.id ∈ p.steps.map (·.id) := by
    obtain ⟨-, -, -, -, hf, -⟩ := ofPlan_eq_ok hp
    exact List.mem_map_of_mem (List.mem_of_find?_eq_some (Flow.step_of_written hf hb).1)
  rw [Step.configure_self] at hname hbatch
  have hts : t = s :=
    (eq_of_written hp hs ht (variableOf_inj hnames (hid hb) (hid ht) hname).symm).1
  have hform := (eq_of_written hp hs hb rfl).2
  have hr := hread.construct (Step.ofKind?_of_form (c := .loop) (hform ▸ rfl))
  rw [hts] at hbatch
  exact (Step.batchSize_eq_iff hread.json hr).mp hbatch hsize

end

/-- Where a flag or a size is misread, the text depends on how the configuration is written. -/
theorem code_configured_ne (hp : ofPlan p = .ok h) (hj : p.IsJson) (hs : p.step? s.id = some s)
    (hrole : s.isTrigger ∨ s.structural) (hread : s.ReadAs parsed)
    (hm : h.MisreadsFlag s ∨ h.MisreadsSize s) :
    (ofPlan (p.configure s.id parsed)).map code ≠ (ofPlan p).map code := by
  have hp' : ofPlan (p.configure s.id parsed) = .ok (h.configured p s parsed) := by
    rw [ofPlan_configure hs hread, hp]
    rfl
  have hjson := isJson_ofPlan hp hj
  have hjson' := isJson_configured hp hjson hs hrole parsed
  intro he
  rw [hp, hp'] at he
  have hcode : (h.configured p s parsed).code = h.code := Except.ok.inj he
  rcases hm with hm | hm
  · exact not_misreadsFlag hp hjson hread hp' hjson' hcode hm
  · exact not_misreadsSize hp hjson hread hp' hjson' hcode hs hm

/-- Where neither is misread, the text does not depend on how the configuration is written. -/
theorem code_configured_eq (hp : ofPlan p = .ok h) (hs : p.step? s.id = some s)
    (hrole : s.isTrigger ∨ s.structural) (hread : s.ReadAs parsed) (hflag : ¬ h.MisreadsFlag s)
    (hsize : ¬ h.MisreadsSize s) :
    (ofPlan (p.configure s.id parsed)).map code = (ofPlan p).map code := by
  have hcode : (h.configured p s parsed).code = h.code := by
    rw [configured, guardConfigured_eq hp hs hread hflag]
    exact code_mapSteps (sameShape_configure hs hread) hp fun b hb =>
      sameText_configure hp hs hrole hread hsize hb
  rw [ofPlan_configure hs hread, hp]
  exact congrArg Except.ok hcode

/-- Let a step be a trigger or a control-flow construct of a known kind, with a configuration
without formulas in which no problem is found. Then the check of its kind reads the configuration,
and the text of the handler is the same with what it reads in its place, unless the step is a
webhook whose flag is misread or a loop whose size is. -/
theorem code_configured_iff (hs : p.step? s.id = some s) (hrole : s.isTrigger ∨ s.structural)
    (hkind : (TriggerKind.ofKind? s.kind).isSome ∨ (Structure.ofKind? s.kind).isSome)
    (hj : p.IsJson) (hplain : hasFormula (Value.ofFields s.data) = false)
    (hvalid : configProblem s.kind (Value.ofFields s.data) = none) :
    ∃ k parsed, Kind.find? s.kind = some k ∧
      k.config (Value.ofFields s.data) = .ok (Value.ofFields parsed) ∧
      ((ofPlan (p.configure s.id parsed)).map code = (ofPlan p).map code ↔
        ∀ h, ofPlan p = .ok h → ¬ h.MisreadsFlag s ∧ ¬ h.MisreadsSize s) := by
  obtain ⟨k, hk⟩ : ∃ k, Kind.find? s.kind = some k := by
    rcases hkind with hc | hc
    · obtain ⟨c, hc⟩ := Option.isSome_iff_exists.mp hc
      obtain ⟨k, hk, -⟩ := find?_of_trigger hc
      exact ⟨k, hk⟩
    · obtain ⟨c, hc⟩ := Option.isSome_iff_exists.mp hc
      obtain ⟨k, hk, -⟩ := find?_of_structure hc
      exact ⟨k, hk⟩
  obtain ⟨parsed, hr⟩ := config_eq_ok hk hplain hvalid
  have hread : s.ReadAs parsed := ⟨hj s (List.mem_of_find?_eq_some hs), k, hk, hr⟩
  refine ⟨k, parsed, hk, hr, fun he h hp => ?_, fun hnot => ?_⟩
  · have hm : ¬ (h.MisreadsFlag s ∨ h.MisreadsSize s) := fun hm =>
      code_configured_ne hp hj hs hrole hread hm he
    exact not_or.mp hm
  · cases hp : ofPlan p with
    | error e => rw [ofPlan_configure hs hread, hp]; rfl
    | ok h =>
      obtain ⟨hflag, hsize⟩ := hnot h hp
      rw [← hp]
      exact code_configured_eq hp hs hrole hread hflag hsize

/-- A webhook that says in a text that it demands no signatures. -/
def unsignedHook : Step :=
  { id := "hook", kind := "trigger-webhook", role := .trigger,
    data := [("verifySignature", .str "false")], structural := false, category := .core }

/-- A loop that says in a text that it takes two items at once. -/
def pairLoop : Step :=
  { id := "each", kind := "for", role := .action,
    data := [("iterator", .str "rows"), ("batchSize", .str "2")], structural := true,
    category := .core }

/-- A plan whose configurations are accepted, though not written as they are read. -/
def lenient : Plan where
  steps := [unsignedHook, pairLoop]
  edges := [{ source := "hook", target := "each" }]
  entry := "hook"
  hasCycle := false
  depth := 2

/-- The configuration of the webhook as it is read. -/
def hookFields : Names :=
  [("path", .str "/"), ("methods", .list [.str "POST"]), ("authMode", .str "public"),
   ("verifySignature", .bool false), ("secretKeyRef", .none)]

/-- The configuration of the loop as it is read. -/
def loopFields : Names :=
  [("iterator", .str "rows"), ("itemVariable", .str "item"), ("batchSize", .int 2)]

theorem lenient_isJson : lenient.IsJson := by
  unfold Plan.IsJson
  decide

theorem lenient_agrees_iff :
    ∃ k parsed, Kind.find? "for" = some k ∧
      k.config (Value.ofFields pairLoop.data) = .ok (Value.ofFields parsed) ∧
      ((ofPlan (lenient.configure "each" parsed)).map code = (ofPlan lenient).map code ↔
        ∀ h, ofPlan lenient = .ok h → ¬ h.MisreadsFlag pairLoop ∧ ¬ h.MisreadsSize pairLoop) :=
  code_configured_iff (s := pairLoop) rfl (.inr rfl) (.inr rfl) lenient_isJson (by cbv) (by cbv)

theorem unsignedHook_read : unsignedHook.ReadAs hookFields := ⟨by decide, _, rfl, by cbv⟩

theorem pairLoop_read : pairLoop.ReadAs loopFields := ⟨by decide, _, rfl, by cbv⟩

/-- Both configurations are accepted, and the text is another with what is read in their place:
the webhook turns every request away, and the loop takes one item at once. -/
theorem lenient_differs :
    (configProblem "trigger-webhook" (Value.ofFields unsignedHook.data) = none ∧
      unsignedHook.ReadAs hookFields ∧
      (ofPlan (lenient.configure "hook" hookFields)).map code ≠ (ofPlan lenient).map code) ∧
    configProblem "for" (Value.ofFields pairLoop.data) = none ∧ pairLoop.ReadAs loopFields ∧
      (ofPlan (lenient.configure "each" loopFields)).map code ≠ (ofPlan lenient).map code := by
  obtain ⟨h, hp⟩ := exists_eq_ok (x := ofPlan lenient) (by cbv)
  have htrigger : h.trigger = unsignedHook := by
    obtain ⟨-, hs, -⟩ := ofPlan_eq_ok hp
    exact (Option.some.inj hs).symm
  have hwritten : h.flow.written = [.loop pairLoop []] := by
    have hw : (ofPlan lenient).map (·.flow.written) = .ok [.loop pairLoop []] := by cbv
    rw [hp] at hw
    exact Except.ok.inj hw
  have hflag : h.MisreadsFlag unsignedHook := ⟨htrigger, rfl, by cbv, "false", rfl, by cbv⟩
  have hsize : h.MisreadsSize pairLoop :=
    ⟨⟨[], hwritten ▸ List.mem_singleton_self _⟩, .str "2", 2, rfl, by simp, by cbv, by decide⟩
  refine ⟨⟨by cbv, unsignedHook_read, ?_⟩, by cbv, pairLoop_read, ?_⟩
  · exact code_configured_ne hp lenient_isJson rfl (.inl rfl) unsignedHook_read (.inl hflag)
  · exact code_configured_ne hp lenient_isJson rfl (.inr rfl) pairLoop_read (.inr hsize)

end Handler

end Workflow
