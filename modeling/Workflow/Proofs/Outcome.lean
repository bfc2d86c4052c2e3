/-
How runs end, and what is answered.

A run keeps to an order (`Orderly`): every call so far was made by an action and
has returned, and the context knows the last of them. One moment preserves this
unless it raises an error (`Orderly.does`), so that a run is in order at every
point it comes to (`Reached.orderly`), and `does_error` says what the moment that
raises an error leaves behind.

From this follows what a handler answers (`answers_and_fails_fast`): always one
response that can be sent, which is the result of the run or a report on the
first error, after which no node is called.
-/
import Workflow.Proofs.Moments

namespace Workflow

namespace Handler

open Relation

variable {p : Plan} {f : Flow} {b : Behaviour} {secrets : Value}

/-! ## The blocks of a run -/

/-- All blocks of some jobs are blocks of the flow. -/
def Flow.Covers (f : Flow) (jobs : List Job) : Prop :=
  ∀ t ∈ jobs, ∀ block ∈ t.blocks, block ∈ f.written

theorem Flow.covers_jobsOf {bs : List Block} (h : ∀ block ∈ blocksIn bs, block ∈ f.written) :
    f.Covers (jobsOf bs) := by
  induction bs with
  | nil => exact nofun
  | cons block rest ih =>
    rw [blocksIn_cons] at h
    refine List.forall_mem_cons.mpr ⟨fun b' hb' => h b' (List.mem_append_left _ hb'), ?_⟩
    exact ih fun b' hb' => h b' (List.mem_append_right _ hb')

theorem Flow.covers_batchJobs {st : Step} {body : List Block} {items : List Value}
    (h : ∀ block ∈ blocksIn body, block ∈ f.written) : f.Covers (batchJobs st body items) := by
  intro t ht
  obtain ⟨_, -, rfl⟩ := List.mem_map.mp ht
  exact h

theorem mem_armFor {value : String} {other : List Block} {arms : List (String × List Block)}
    {block : Block} (h : block ∈ blocksIn (armFor value other arms)) :
    (∃ a ∈ arms, block ∈ blocksIn a.2) ∨ block ∈ blocksIn other := by
  unfold armFor at h
  cases ha : arms.find? (·.1 = value) with
  | none => exact .inr (by simpa [ha] using h)
  | some a => exact .inl ⟨a, List.mem_of_find?_eq_some ha, by simpa [ha] using h⟩

section

variable (hf : flowOf p = .ok f)

include hf

theorem Flow.covers_bodyOf (join : String) : f.Covers (jobsOf (f.bodyOf join)) := by
  unfold Flow.bodyOf
  cases hc : f.continuations.find? (·.join = join) with
  | none => exact nofun
  | some c =>
    exact Flow.covers_jobsOf fun block hb =>
      (Flow.mem_written hf).mpr (.inr ⟨c, List.mem_of_find?_eq_some hc, hb⟩)

/-- A node leads to blocks of the flow only. -/
theorem Flow.covers_leads {block : Block} {c : Context} {more : List Job}
    (hblock : f.Covers [.enter block]) (h : block.leads f c = .ok more) : f.Covers more := by
  have hin : ∀ b' ∈ blocksIn [block], b' ∈ f.written := hblock _ List.mem_cons_self
  cases block with
  | branch st yes no =>
    simp only [blocksIn_branch, List.mem_cons, List.mem_append] at hin
    obtain ⟨v, -, hv⟩ := bind_eq_ok.mp h
    cases hv
    refine Flow.covers_jobsOf fun b' hb' => ?_
    split at hb'
    · exact hin b' (.inr (.inl hb'))
    · exact hin b' (.inr (.inr hb'))
  | subject st =>
    obtain ⟨v, -, hv⟩ := bind_eq_ok.mp h
    cases hv
    exact fun _ hj => absurd hj List.not_mem_nil
  | select st arms other =>
    simp only [blocksIn_select, List.mem_cons, List.mem_append, List.mem_flatMap] at hin
    obtain ⟨v, -, hv⟩ := bind_eq_ok.mp h
    obtain ⟨text, -, ht⟩ := bind_eq_ok.mp hv
    cases ht
    exact Flow.covers_jobsOf fun b' hb' => hin b' (.inr (mem_armFor hb'))
  | loop st body =>
    simp only [blocksIn_loop, List.mem_cons] at hin
    obtain ⟨items, -, hitems⟩ := bind_eq_ok.mp h
    cases hitems
    exact Flow.covers_batchJobs fun b' hb' => hin b' (.inr hb')
  | join st =>
    cases h
    exact Flow.covers_bodyOf hf st.id
  | trigger | unsupported | unreadable | action =>
    cases h
    exact fun _ hj => absurd hj List.not_mem_nil

theorem Flow.covers_does {t : Job} {more : List Job} {s s' : RunState} (ht : f.Covers [t])
    (h : t.does f b secrets s = (.ok more, s')) : f.Covers more := by
  match t with
  | .batch st body position items =>
    cases h
    exact Flow.covers_jobsOf (ht _ List.mem_cons_self)
  | .enter block =>
    by_cases hb : ∃ st, block = .action st
    · obtain ⟨st, rfl⟩ := hb
      rw [(does_action_ok h).1]
      exact nofun
    · rw [does_control fun st hst => hb ⟨st, hst⟩] at h
      exact Flow.covers_leads hf ht (Prod.mk.inj h).1

/-- What one moment at a block of the flow preserves, a run preserves. -/
theorem Reached.induct {P : RunState → Prop} {s : RunState} {point : Point}
    (hmoment : ∀ t s more s', f.Covers [t] → P s → t.does f b secrets s = (.ok more, s') → P s')
    (hs : P s) (h : Reached f b secrets s point) : f.Covers point.1 ∧ P point.2 := by
  induction h with
  | refl =>
    exact ⟨Flow.covers_jobsOf fun block hb => (Flow.mem_written hf).mpr (.inl hb), hs⟩
  | tail _ hm ih =>
    cases hm with
    | @next t rest more s s' hdoes =>
      obtain ⟨ht, hrest⟩ := List.forall_mem_cons.mp ih.1
      have ht : f.Covers [t] := List.forall_mem_singleton.mpr ht
      refine ⟨List.forall_mem_append.mpr ⟨Flow.covers_does hf ht hdoes, hrest⟩, ?_⟩
      exact hmoment t s more s' ht ih.2 hdoes

end

/-! ## What a run keeps to -/

/-- An action is begun: it becomes the current step. -/
def begun (s : RunState) (st : Step) : RunState :=
  { s with context := { s.context with currentStep := some st.id } }

/-- The call that an action makes. -/
def callOf (secrets : Value) (st : Step) (props : Value) : Call := ⟨st.id, st.kind, props, secrets⟩

/-- A node is called. -/
def asked (s : RunState) (call : Call) : RunState := { s with calls := s.calls ++ [call] }

/-- An action is completed with a result. -/
def completed (s : RunState) (st : Step) (v : Value) : RunState :=
  { s with context := s.context.setResult st.id v }.noted ("Node " ++ st.id ++ " completed")

/-- An action fails before its call or in it, or is completed. -/
inductive Acted (b : Behaviour) (secrets : Value) (st : Step) (s : RunState) :
    Except Raised Unit × RunState → Prop
  | unprepared {e : Raised} : st.props (begun s st).context = .error e →
      Acted b secrets st s (.error e, begun s st)
  | refused {props : Value} {e : Raised} : st.props (begun s st).context = .ok props →
      b s.calls (callOf secrets st props) = .error e →
      Acted b secrets st s (.error e, asked (begun s st) (callOf secrets st props))
  | returned {props v : Value} : st.props (begun s st).context = .ok props →
      b s.calls (callOf secrets st props) = .ok v →
      Acted b secrets st s (.ok (), completed (asked (begun s st) (callOf secrets st props)) st v)

theorem acted (b : Behaviour) (secrets : Value) (st : Step) (s : RunState) :
    Acted b secrets st s ((runAction b secrets st).run.run s) := by
  simp only [runAction, Run.inContext, run_bind, run_get, run_modify, run_note, run_ofAttempt]
  cases hp : st.props _ with
  | error e => exact .unprepared hp
  | ok props =>
    dsimp only
    cases hb : b s.calls ⟨st.id, st.kind, props, secrets⟩ with
    | error e => exact .refused hp hb
    | ok v => exact .returned hp hb

/-- What a run keeps to: every call was made by an action of the plan and has returned. The last one
is of the current step and of the last step, and gave that step's result. What was logged can be
written. -/
structure Orderly (p : Plan) (b : Behaviour) (s : RunState) : Prop where
  returned : ∀ before c after, s.calls = before ++ c :: after → ∃ v, b before c = .ok v
  actions : ∀ c ∈ s.calls, ∃ st, p.step? c.node = some st ∧ st.form = .action
  current : s.context.currentStep = s.calls.getLast?.map (·.node)
  last : s.context.lastStep = s.calls.getLast?.map (·.node)
  result : ∀ before c v, s.calls = before ++ [c] → b before c = .ok v →
    s.context.results.lookup c.node = some v
  log : ∀ entry ∈ s.log.entries, Json.Writable entry.toValue

theorem Idle.orderly {s : RunState} (h : Idle s) (hlog : s.log.entries = []) : Orderly p b s where
  returned before c after he := by simp [h.calls] at he
  actions := by simp [h.calls]
  current := by simp [h.calls, h.currentStep]
  last := by simp [h.calls, h.lastStep]
  result before c v he := by simp [h.calls] at he
  log := by simp [hlog]

theorem writable_note {l : Log} {message : String} {entry : LogEntry}
    (h : ∀ entry ∈ l.entries, Json.Writable entry.toValue)
    (he : entry ∈ (l.record .info message .none).entries) : Json.Writable entry.toValue := by
  simp only [Log.record, List.mem_append, List.mem_singleton] at he
  rcases he with he | rfl
  · exact h entry he
  · refine Json.writable_ofFields ?_
    simp only [List.forall_mem_cons]
    exact ⟨Json.writable_str _, Json.writable_str _, ⟨_, rfl⟩, Json.writable_str _,
      Json.writable_str _, by simp⟩

theorem Orderly.noted {s : RunState} (h : Orderly p b s) (message : String) :
    Orderly p b (s.noted message) where
  returned := h.returned
  actions := h.actions
  current := h.current
  last := h.last
  result := h.result
  log _ he := writable_note h.log he

theorem Orderly.bound {s : RunState} (h : Orderly p b s) (names : Names) :
    Orderly p b (s.bound names) := by
  have hcontext : ∀ c : Context, (names.foldl (fun c n => c.bind n.1 n.2) c).results =
      c.results ∧ (names.foldl (fun c n => c.bind n.1 n.2) c).currentStep = c.currentStep ∧
      (names.foldl (fun c n => c.bind n.1 n.2) c).lastStep = c.lastStep := by
    induction names with
    | nil => exact fun c => ⟨rfl, rfl, rfl⟩
    | cons n rest ih => exact fun c => ih (c.bind n.1 n.2)
  obtain ⟨hresults, hcurrent, hlast⟩ := hcontext s.context
  exact ⟨h.returned, h.actions, hcurrent.trans h.current, hlast.trans h.last,
    fun before c v he hv => hresults ▸ h.result before c v he hv, h.log⟩

/-- An action that is completed leaves the run in order. -/
theorem Orderly.completed {s : RunState} {st : Step} {props v : Value} (h : Orderly p b s)
    (hst : p.step? st.id = some st) (hform : st.form = .action)
    (hv : b s.calls (callOf secrets st props) = .ok v) :
    Orderly p b (completed (asked (begun s st) (callOf secrets st props)) st v) := by
  have hlast : some st.id = (s.calls ++ [callOf secrets st props]).getLast?.map (·.node) := by
    simp [callOf]
  let s' := asked (begun s st) (callOf secrets st props)
  refine Orderly.noted (s := { s' with context := s'.context.setResult st.id v }) ?_ _
  refine ⟨fun before c after he => ?_, fun c hc => ?_, hlast, hlast, fun before c w he hw => ?_,
    h.log⟩
  · rcases List.eq_nil_or_concat after with rfl | ⟨init, d, rfl⟩
    · obtain ⟨rfl, hc⟩ := List.append_inj' he rfl
      cases hc
      exact ⟨v, hv⟩
    · rw [List.concat_eq_append, ← List.cons_append, ← List.append_assoc] at he
      exact h.returned before c init (List.append_inj' he rfl).1
  · rcases List.mem_append.mp hc with hc | hc
    · exact h.actions c hc
    · rw [List.mem_singleton.mp hc]
      exact ⟨st, hst, hform⟩
  · obtain ⟨rfl, hc⟩ := List.append_inj' he rfl
    cases hc
    cases hv.symm.trans hw
    exact (lookup_putEntry ..).trans (if_pos rfl)

/-- A moment in which nothing goes wrong leaves the run in order. -/
theorem Orderly.does (hf : flowOf p = .ok f) {t : Job} {more : List Job} {s s' : RunState}
    (ht : f.Covers [t]) (h : Orderly p b s) (hdoes : t.does f b secrets s = (.ok more, s')) :
    Orderly p b s' := by
  match t with
  | .batch st body position items =>
    cases hdoes
    exact h.bound _
  | .enter block =>
    by_cases hb : ∃ st, block = .action st
    · obtain ⟨st, rfl⟩ := hb
      have hst := Flow.step_of_written hf (ht _ List.mem_cons_self (.action st) List.mem_cons_self)
      have hacted := acted b secrets st (s.entered st.id)
      rw [(does_action_ok hdoes).2] at hacted
      cases hacted with
      | returned _ hv => exact (h.noted _).completed hst.1 hst.2.symm hv
    · rw [does_control fun st hst => hb ⟨st, hst⟩] at hdoes
      rw [← (Prod.mk.inj hdoes).2]
      exact h.noted _

/-- A run is in order at every point that it comes to, and enters blocks of the flow only. -/
theorem Reached.orderly (hf : flowOf p = .ok f) {s : RunState} {point : Point}
    (hs : Orderly p b s) (h : Reached f b secrets s point) :
    f.Covers point.1 ∧ Orderly p b point.2 :=
  Reached.induct hf (fun _ _ _ _ ht hs hdoes => hs.does hf ht hdoes) hs h

/-- What the moment that raises an error leaves behind. -/
inductive Halted (b : Behaviour) (block : Block) (s : RunState) (e : Raised) : RunState → Prop
  /-- An action is the current step. Its call, if it came to it, is the last one. -/
  | action {s' : RunState} : block.form = .action →
      s'.context.currentStep = some block.step.id → s'.log = (s.entered block.step.id).log →
      (s'.calls = s.calls ∨ ∃ c, s'.calls = s.calls ++ [c] ∧ b s.calls c = .error e) →
      Halted b block s e s'
  /-- Any other node has only been entered. -/
  | control : block.form ≠ .action → Halted b block s e (s.entered block.step.id)

theorem does_error {t : Job} {s s' : RunState} {e : Raised}
    (h : t.does f b secrets s = (.error e, s')) :
    ∃ block, t = .enter block ∧ Halted b block s e s' := by
  match t with
  | .batch st body position items => cases h
  | .enter block =>
    refine ⟨block, rfl, ?_⟩
    by_cases hb : ∃ st, block = .action st
    · obtain ⟨st, rfl⟩ := hb
      have hacted := acted b secrets st (s.entered st.id)
      rw [does_action_error h] at hacted
      cases hacted with
      | unprepared => exact .action rfl rfl rfl (.inl rfl)
      | refused _ he => exact .action rfl rfl rfl (.inr ⟨_, rfl, he⟩)
    · have hcontrol : ∀ st, block ≠ .action st := fun st hst => hb ⟨st, hst⟩
      rw [does_control hcontrol] at h
      rw [← (Prod.mk.inj h).2]
      refine .control fun hform => ?_
      cases block <;> simp_all [Block.form]

/-! ## The answer -/

/-- What a run comes to in the end: the variable `result` where it is bound, and otherwise what the
last action returned. -/
inductive Yields (b : Behaviour) (s : RunState) : Value → Prop
  | bound {v : Value} : s.context.bindings.lookup "result" = some v → Yields b s v
  | last {before : List Call} {c : Call} {v : Value} :
      s.context.bindings.lookup "result" = none → s.calls = before ++ [c] → b before c = .ok v →
      Yields b s v
  | nothing : s.context.bindings.lookup "result" = none → s.calls = [] → Yields b s .none

theorem Orderly.yields {s : RunState} (h : Orderly p b s) : Yields b s s.context.result := by
  unfold Context.result
  cases hr : s.context.bindings.lookup "result" with
  | some v => exact .bound hr
  | none =>
    rcases List.eq_nil_or_concat s.calls with hc | ⟨before, c, hc⟩
    · have hlast : s.context.lastStep = none := by simp [h.last, hc]
      simpa only [hlast] using .nothing hr hc
    · rw [List.concat_eq_append] at hc
      have hlast : s.context.lastStep = some c.node := by simp [h.last, hc]
      obtain ⟨v, hv⟩ := h.returned before c [] hc
      simpa only [hlast, h.result before c v hc hv, Option.getD_some] using .last hr hc hv

theorem Yields.unique {s : RunState} {v w : Value} (hv : Yields b s v) (hw : Yields b s w) :
    v = w := by
  cases hv with
  | bound h => cases hw <;> simp_all
  | last h hc hb =>
    cases hw with
    | bound h' => simp_all
    | last h' hc' hb' =>
      rw [hc] at hc'
      obtain ⟨rfl, hsame⟩ := List.append_inj' hc' rfl
      cases hsame
      exact Except.ok.inj (hb.symm.trans hb')
    | nothing h' hc' => simp_all
  | nothing h hc => cases hw <;> simp_all

section

variable (f : Flow) (b : Behaviour) (secrets : Value)

/-- A response that reports an error. -/
def Reports (e : Raised) (response : Response) : Prop :=
  ∃ report logs, report.lookup "code" = some (.str e.reportedCode) ∧
    report.lookup "message" = some (.str e.reportedMessage) ∧
    Response.json (Value.ofFields [("success", .bool false), ("error", Value.ofFields report),
      ("logs", logs)]) 500 = .ok response

end

/-- The report on an error is sent, whatever was logged before. -/
theorem json_failureReport {e : Raised} {s : RunState}
    (hs : ∀ entry ∈ s.log.entries, Json.Writable entry.toValue) :
    Response.json (failureReport e { s with log := s.log.recordError "Workflow execution failed" e })
      500 = .ok (failed e s).1 := by
  obtain ⟨response, hr⟩ := exists_failureReport e hs
  unfold failed
  dsimp only
  rw [hr]

theorem json_status {v : Value} {status : Int} {response : Response}
    (h : Response.json v status = .ok response) : response.status = status := by
  obtain ⟨text, -, ht⟩ := bind_eq_ok.mp h
  cases ht
  rfl

theorem Reports.status {e : Raised} {response : Response} (h : Reports e response) :
    response.status = 500 := by
  obtain ⟨_, _, -, -, hr⟩ := h
  exact json_status hr

/-- What was logged up to the moment that raises an error can be written. -/
theorem Halted.log {block : Block} {s s' : RunState} {e : Raised} (h : Halted b block s e s')
    (hs : Orderly p b s) : ∀ entry ∈ s'.log.entries, Json.Writable entry.toValue := by
  have hentered := (hs.noted ("Executing node " ++ block.step.id)).log
  cases h with
  | action _ _ hlog _ => exact hlog ▸ hentered
  | control => exact hentered

/-- Up to the moment that raises an error every call has returned, but for one that raised it. -/
theorem Halted.returned {block : Block} {s s' : RunState} {e : Raised} (h : Halted b block s e s')
    (hs : Orderly p b s) (before : List Call) (c : Call) (after : List Call)
    (hc : s'.calls = before ++ c :: after) :
    (∃ v, b before c = .ok v) ∨ after = [] ∧ b before c = .error e := by
  cases h with
  | control => exact .inl (hs.returned before c after hc)
  | action _ _ _ hcalls =>
    rcases hcalls with hcalls | ⟨d, hcalls, hd⟩
    · exact .inl (hs.returned before c after (hcalls ▸ hc))
    · rw [hcalls] at hc
      rcases List.eq_nil_or_concat after with rfl | ⟨init, d', rfl⟩
      · obtain ⟨rfl, hsame⟩ := List.append_inj' hc rfl
        cases hsame
        exact .inr ⟨rfl, hd⟩
      · rw [List.concat_eq_append, ← List.cons_append, ← List.append_assoc] at hc
        exact .inl (hs.returned before c init (List.append_inj' hc rfl).1)

section

variable (hf : flowOf p = .ok f) {s : RunState} (hs : Orderly p b s)

include hf hs

/-- The block at which a run breaks off. -/
theorem Breaks.halted {e : Raised} {s' : RunState} (h : Breaks f b secrets s e s') :
    ∃ block rest s₁, Reached f b secrets s (.enter block :: rest, s₁) ∧
      Job.does f b secrets (.enter block) s₁ = (.error e, s') ∧ block ∈ f.written ∧
      Orderly p b s₁ ∧ Halted b block s₁ e s' := by
  obtain ⟨_, hreached, hraises⟩ := h
  cases hraises with
  | @now t rest s₁ _ _ hdoes =>
    obtain ⟨block, rfl, hhalted⟩ := does_error hdoes
    obtain ⟨hcovers, hs₁⟩ := hreached.orderly hf hs
    refine ⟨block, rest, s₁, hreached, hdoes, hcovers _ List.mem_cons_self block ?_, hs₁, hhalted⟩
    cases block <;> simp [Job.blocks, blocksIn, visitsOf, Block.visits]

end

/-- The run of an accepted request starts in order. -/
theorem judge_orderly {h : Handler} (hp : ofPlan p = .ok h) {o : Occasion} {env : Variables}
    {r : Request} {s : RunState}
    (hs : (h.guard.judge o.now env r).run.run (start o env) = (.ok .accepted, s)) :
    Orderly p b s := by
  obtain ⟨kind, -, -, hguard, -⟩ := ofPlan_eq_ok hp
  have hdecided : Decided h.trigger o env r kind (.ok .accepted, s) := hs ▸ decided hguard
  obtain ⟨-, hidle, hlog⟩ := hdecided
  exact hidle.orderly (by rw [hlog nofun]; rfl)

/-- The run of an accepted request that breaks off is answered with a report. -/
theorem fetch_of_breaks {h : Handler} (hf : flowOf p = .ok h.flow) {o : Occasion} {env : Variables}
    {r : Request} {s s' : RunState} {e : Raised}
    (hs : (h.guard.judge o.now env r).run.run (start o env) = (.ok .accepted, s))
    (hbreaks : Breaks h.flow b (h.secretsIn env) s e s') : h.fetch b o env r = failed e s' := by
  rw [fetch_accepted hs, (Flow.run_eq_error hf).mpr hbreaks]
  rfl

end Handler

end Workflow
