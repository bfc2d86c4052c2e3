/-
The step that a failed run is blamed on.

A report names the current step, and only actions make themselves the current
step. So an action that fails is named, but where the formula of a branch, a
selection or a loop cannot be evaluated the report names the action that was
completed last, or none (`blames_iff_action`).
-/
import Workflow.Proofs.Outcome

namespace Workflow

theorem Raised.lookup_report_step (e : Raised) (step : Option String) :
    (e.report step).lookup "step" = step.map .str := by
  cases step <;> rfl

/-- The last message that was logged. -/
def RunState.lastMessage (s : RunState) : Option String := s.log.entries.getLast?.map (·.message)

namespace Handler

variable {p : Plan} {b : Behaviour}

theorem Halted.lastMessage {block : Block} {s s' : RunState} {e : Raised}
    (h : Halted b block s e s') : s'.lastMessage = some ("Executing node " ++ block.step.id) := by
  have hentered : (s.entered block.step.id).lastMessage =
      some ("Executing node " ++ block.step.id) := by
    simp [RunState.lastMessage, RunState.entered, RunState.noted, Log.record]
  cases h with
  | action _ _ hlog _ =>
    rw [RunState.lastMessage, hlog]
    exact hentered
  | control => exact hentered

/-- A report names the step at which an error arose if and only if it is an action. The last action
that was completed is another step. -/
theorem Halted.names_iff {block : Block} {s s' : RunState} {e : Raised} (h : Halted b block s e s')
    (hs : Orderly p b s) (hstep : p.step? block.step.id = some block.step)
    (hform : block.form = block.step.form) :
    s'.context.currentStep = some block.step.id ↔ block.step.form = .action := by
  cases h with
  | action haction hcurrent => exact iff_of_true hcurrent (hform ▸ haction)
  | control hcontrol =>
    refine iff_of_false (fun hcurrent => ?_) (hform ▸ hcontrol)
    rw [show (s.entered block.step.id).context = s.context from rfl, hs.current,
      Option.map_eq_some_iff] at hcurrent
    obtain ⟨c, hc, hnode⟩ := hcurrent
    obtain ⟨st, hst, haction⟩ := hs.actions c (List.mem_of_getLast? hc)
    rw [hnode, hstep] at hst
    cases hst
    exact hcontrol (hform.trans haction)

/-- **A failed run is blamed on the step at which it failed just where that is an action.** Where a
run of an accepted request breaks off, it does so at the step that was entered last. The report
names that step if and only if it is an action; otherwise it names the action that was completed
last, or no step if there was none. -/
theorem blames_iff_action {h : Handler} (hp : ofPlan p = .ok h) {o : Occasion} {env : Variables}
    {r : Request} {s s' : RunState} {e : Raised}
    (hs : (h.guard.judge o.now env r).run.run (start o env) = (.ok .accepted, s))
    (hbreaks : Breaks h.flow b (h.secretsIn env) s e s') :
    ∃ block rest s₁ report logs,
      Reached h.flow b (h.secretsIn env) s (.enter block :: rest, s₁) ∧
      Job.does h.flow b (h.secretsIn env) (.enter block) s₁ = (.error e, s') ∧
      p.step? block.step.id = some block.step ∧
      s'.lastMessage = some ("Executing node " ++ block.step.id) ∧
      Response.json (Value.ofFields [("success", .bool false), ("error", Value.ofFields report),
        ("logs", logs)]) 500 = .ok (h.fetch b o env r).1 ∧
      (report.lookup "step" = some (.str block.step.id) ↔ block.step.form = .action) ∧
      (block.step.form ≠ .action →
        report.lookup "step" = s₁.calls.getLast?.map fun c => .str c.node) ∧
      ∀ before c after, s₁.calls = before ++ c :: after → ∃ v, b before c = .ok v := by
  obtain ⟨-, -, -, -, hf, -⟩ := ofPlan_eq_ok hp
  obtain ⟨block, rest, s₁, hreached, hdoes, hwritten, hs₁, hhalted⟩ :=
    hbreaks.halted hf (judge_orderly hp hs)
  obtain ⟨hstep, hform⟩ := Flow.step_of_written hf hwritten
  have hfetch : h.fetch b o env r = failed e s' := fetch_of_breaks hf hs hbreaks
  refine ⟨block, rest, s₁, e.report s'.context.currentStep, _, hreached, hdoes, hstep,
    hhalted.lastMessage, hfetch ▸ json_failureReport (hhalted.log hs₁), ?_, fun hcontrol => ?_,
    hs₁.returned⟩
  · rw [Raised.lookup_report_step, ← hhalted.names_iff hs₁ hstep hform, Option.map_eq_some_iff]
    simp
  · rw [Raised.lookup_report_step]
    cases hhalted with
    | action haction => exact absurd (hform ▸ haction) hcontrol
    | control =>
      rw [show (s₁.entered block.step.id).context = s₁.context from rfl, hs₁.current,
        Option.map_map]
      rfl

/-- An action. -/
def say : Step where
  id := "say"
  kind := "value"
  role := .action
  data := [("value", .int 1)]
  structural := false
  category := .core

/-- A branch on a variable that nothing binds. -/
def check : Step where
  id := "check"
  kind := "if"
  role := .action
  data := [("condition", .str "missing")]
  structural := true
  category := .core

/-- An action, and a branch after it. -/
def gate : Plan where
  steps := [
    { id := "start", kind := "trigger-manual", role := .trigger, data := [], structural := false,
      category := .core },
    say, check]
  edges := [{ source := "start", target := "say" }, { source := "say", target := "check" }]
  entry := "start"
  hasCycle := false
  depth := 3

/-- What an action returns that always succeeds. -/
def one : Behaviour := fun _ _ => .ok (.int 1)

theorem gate_main {h : Handler} (hp : ofPlan gate = .ok h) :
    h.flow.main = [.action say, .branch check [] []] := by
  have hmain : (ofPlan gate).toOption.map (·.flow.main) =
      some [.action say, .branch check [] []] := by cbv
  rw [hp] at hmain
  exact Option.some.inj hmain

/-- The context in which the branch is entered. -/
def gateContext : Context where
  workflowId := "w"
  executionId := "e"
  bindings := [("input", signedIn.jsonBody), ("triggeredAt", .str "now")]
  results := [("say", .int 1)]
  currentStep := some "say"
  lastStep := some "say"

theorem gateContext_fails : ∃ e, gateContext.evaluate (.str "missing") = .error e := by
  have herror : (gateContext.evaluate (.str "missing")).isOk = false := by decide +kernel
  cases hv : gateContext.evaluate (.str "missing") with
  | ok v =>
    rw [hv] at herror
    cases herror
  | error e => exact ⟨e, rfl⟩

/-- The action is completed, and the branch cannot be decided. -/
theorem gate_breaks {h : Handler} (hp : ofPlan gate = .ok h) : ∃ s e s',
    (h.guard.judge "now" [] signedIn).run.run (start ⟨"now", "w", "e"⟩ []) = (.ok .accepted, s) ∧
      Breaks h.flow one (h.secretsIn []) s e s' ∧ s'.context.currentStep = some "say" ∧
      s'.log.entries.map (·.message) =
        ["Executing node say", "Node say completed", "Executing node check"] := by
  have hs := judge_manual "now" [] signedIn_token (start ⟨"now", "w", "e"⟩ [])
  rw [← guard_manual hp rfl rfl] at hs
  obtain ⟨e, he⟩ := gateContext_fails
  obtain ⟨s, hs, hcontext, hlog⟩ : ∃ s, (h.guard.judge "now" [] signedIn).run.run
      (start ⟨"now", "w", "e"⟩ []) = (.ok .accepted, s) ∧
      ((begun s say).context.setResult "say" (.int 1)) = gateContext ∧ s.log.entries = [] :=
    ⟨_, hs, rfl, rfl⟩
  let s₁ := completed (asked (begun (s.entered "say") say)
    (callOf (h.secretsIn []) say (Value.ofFields say.data))) say (.int 1)
  have hsay : Job.does h.flow one (h.secretsIn []) (.enter (.action say)) s = (.ok [], s₁) := rfl
  have hcheck : Job.does h.flow one (h.secretsIn []) (.enter (.branch check [] [])) s₁ =
      (.error e, s₁.entered "check") := by
    have hs₁ : s₁.context = gateContext := hcontext
    have hcondition : check.condition = "missing" := rfl
    rw [does_control (by simp), Block.leads, hs₁, hcondition, he]
    rfl
  have hreached : Reached h.flow one (h.secretsIn []) s ([.enter (.branch check [] [])], s₁) := by
    rw [Reached, gate_main hp]
    exact .single (.next hsay)
  refine ⟨s, e, s₁.entered "check", hs, ⟨_, hreached, .now hcheck⟩, rfl, ?_⟩
  simp only [s₁, completed, asked, begun, RunState.entered, RunState.noted, Log.record, hlog]
  rfl

theorem failed_log (e : Raised) (s : RunState) :
    (failed e s).2.log = s.log.recordError "Workflow execution failed" e := by
  unfold failed
  dsimp only
  split <;> rfl

/-- The branch could not be decided, but the report names the action before it, which was
completed. -/
theorem gate_blames_say : ∃ h report logs, ofPlan gate = .ok h ∧
    Response.json (Value.ofFields [("success", .bool false), ("error", Value.ofFields report),
      ("logs", logs)]) 500 = .ok (h.fetch one ⟨"now", "w", "e"⟩ [] signedIn).1 ∧
    report.lookup "step" = some (.str "say") ∧
    (h.fetch one ⟨"now", "w", "e"⟩ [] signedIn).2.log.entries.map (·.message) =
      ["Executing node say", "Node say completed", "Executing node check",
        "Workflow execution failed"] := by
  obtain ⟨h, hp⟩ := exists_eq_ok (x := ofPlan gate) (by cbv)
  obtain ⟨-, -, -, -, hf, -⟩ := ofPlan_eq_ok hp
  obtain ⟨s, e, s', hs, hbreaks, hcurrent, hmessages⟩ := gate_breaks hp
  have hfetch : h.fetch one ⟨"now", "w", "e"⟩ [] signedIn = failed e s' :=
    fetch_of_breaks hf hs hbreaks
  obtain ⟨_, _, s₁, -, -, -, hs₁, hhalted⟩ :=
    hbreaks.halted hf (judge_orderly hp (o := ⟨"now", "w", "e"⟩) hs)
  refine ⟨h, e.report s'.context.currentStep, _, hp,
    hfetch ▸ json_failureReport (hhalted.log hs₁), ?_, ?_⟩
  · rw [Raised.lookup_report_step, hcurrent]
    rfl
  · rw [hfetch, failed_log, Log.recordError, Log.record, List.map_append, hmessages]
    rfl

/-- At the gate the report names another step than the one that was entered last. -/
theorem gate_misnamed : ∃ h s e s' report logs, ofPlan gate = .ok h ∧
    (h.guard.judge "now" [] signedIn).run.run (start ⟨"now", "w", "e"⟩ []) = (.ok .accepted, s) ∧
    Breaks h.flow one (h.secretsIn []) s e s' ∧
    s'.lastMessage = some "Executing node check" ∧
    Response.json (Value.ofFields [("success", .bool false), ("error", Value.ofFields report),
      ("logs", logs)]) 500 = .ok (h.fetch one ⟨"now", "w", "e"⟩ [] signedIn).1 ∧
    report.lookup "step" ≠ some (.str "check") := by
  obtain ⟨h, hp⟩ := exists_eq_ok (x := ofPlan gate) (by cbv)
  obtain ⟨s, e, s', hs, hbreaks, -, hmessages⟩ := gate_breaks hp
  have hlast : s'.lastMessage = some "Executing node check" := by
    rw [RunState.lastMessage, ← List.getLast?_map, hmessages]
    rfl
  obtain ⟨block, -, -, report, logs, -, -, hstep, hentered, hjson, hnames, -⟩ :=
    blames_iff_action hp (o := ⟨"now", "w", "e"⟩) hs hbreaks
  have hid : block.step.id = "check" := by
    have happend : "Executing node check" = "Executing node " ++ "check" := by decide
    rw [hlast, happend] at hentered
    exact (append_inj_right (Option.some.inj hentered)).symm
  rw [hid] at hstep hnames
  have hcheck : block.step = check := (Option.some.inj hstep).symm
  have hform : check.form ≠ .action := by decide
  exact ⟨h, s, e, s', report, logs, hp, hs, hbreaks, hlast, hjson,
    fun hnamed => hform (hcheck ▸ hnames.mp hnamed)⟩

end Handler

end Workflow
