/-
The direct reading of a workflow graph (`interpret`), and why the handler of a
graph without cycles does just what it says (`execution_eq_interpretation`).

The interpreter goes from node to node along the edges. It keeps no path, nests
nothing and shares nothing: what follows a join is executed wherever the join is
reached. It ends since every way along the edges does (`AcyclicFrom.ends`).

A walk agrees with it as long as nothing that still follows is on the path
(`runBlocks_walk`). In a graph without cycles the path holds only nodes that
lead to the one being entered, and for a continuation it holds the joins that
lead to its own (`Precedes`), so that nothing is ever cut off.
-/
import Workflow.Proofs.Interpolation
import Workflow.Proofs.Resumption

namespace Workflow

open Relation

namespace Plan

/-- No cycle can be reached from a node. -/
def AcyclicFrom (p : Plan) (id : String) : Prop :=
  ∀ a, ReflTransGen p.Leads id a → ¬ TransGen p.Leads a a

/-- Every way along the edges from a node ends. -/
def Ends (p : Plan) (id : String) : Prop := Acc (fun b a => p.Leads a b) id

variable {p : Plan} {id : String} {path : List String}

theorem AcyclicFrom.of_reaches {a : String} (h : p.AcyclicFrom id)
    (ha : ReflTransGen p.Leads id a) : p.AcyclicFrom a := fun b hb => h b (ha.trans hb)

theorem Ends.of_leads {a : String} (h : p.Ends id) (ha : p.Leads id a) : p.Ends a := h.inv ha

/-- With finitely many steps, a way that never ends would meet a node twice. -/
theorem ends_of_acyclicFrom (path : List String) (id : String)
    (hpath : ∀ a ∈ path, TransGen p.Leads a id) (h : p.AcyclicFrom id) : p.Ends id := by
  refine Acc.intro id fun b hb => ?_
  have hp : id ∉ path := fun hm => h id .refl (hpath id hm)
  have hid : id ∈ Handler.stepIds p := by
    obtain ⟨s, hs⟩ := Option.isSome_iff_exists.mp hb.1
    exact Handler.mem_stepIds hs
  have hlt := Graph.length_unseen_cons_lt hid hp
  refine ends_of_acyclicFrom (id :: path) b (fun a ha => ?_) (h.of_reaches (.single hb))
  rcases List.mem_cons.mp ha with rfl | ha
  · exact .single hb
  · exact (hpath a ha).tail hb
termination_by (Graph.unseen (Handler.stepIds p) path).length

theorem AcyclicFrom.ends (h : p.AcyclicFrom id) : p.Ends id :=
  ends_of_acyclicFrom [] id (by simp) h

/-- A graph whose edges all go down in some numbering of its nodes has no cycle. -/
theorem acyclicFrom_of_rank (rank : String → Nat)
    (h : ∀ e ∈ p.edges, rank e.target < rank e.source) (id : String) : p.AcyclicFrom id := by
  refine fun a _ => not_transGen_of_rank rank ?_ a
  rintro _ _ ⟨-, e, he, rfl, rfl⟩
  exact h e he

/-- From a node on, if one is named, nothing is on a path, and nothing on a cycle. -/
def Clear (p : Plan) (path : List String) (start : Option String) : Prop :=
  ∀ id, start = some id → ∀ a, ReflTransGen p.Leads id a → a ∉ path ∧ ¬ TransGen p.Leads a a

theorem Clear.ends {start : Option String} (h : p.Clear path start) :
    ∀ id, start = some id → p.Ends id := fun id hid =>
  AcyclicFrom.ends fun a ha => (h id hid a ha).2

/-- What a node leads to is clear of the node as well. -/
theorem Clear.cons {id : String} {start : Option String} (h : p.Clear path (some id))
    (hstart : ∀ t, start = some t → p.Leads id t) : p.Clear (id :: path) start := by
  intro t ht a ha
  have hid : ReflTransGen p.Leads id a := .head (hstart t ht) ha
  obtain ⟨hpath, hcycle⟩ := h id rfl a hid
  refine ⟨fun hm => ?_, hcycle⟩
  rcases List.mem_cons.mp hm with rfl | hm
  · exact hcycle (TransGen.head' (hstart t ht) ha)
  · exact hpath hm

end Plan

namespace Handler

/-! ## The interpreter -/

/-- Goes on with the node that a target names, if it names one. -/
def onward (target : Option String) (go : ∀ id, target = some id → Run Unit) : Run Unit :=
  match target with
  | none => return
  | some id => go id rfl

/-- Executes an action on its interpolated configuration. -/
def perform (b : Behaviour) (secrets : Value) (s : Step) : Run Unit := do
  Run.inContext fun c => { c with currentStep := some s.id }
  let props ← Run.ofAttempt (interpolateAll (← get).context (Value.ofFields s.data))
  let call : Call := ⟨s.id, s.kind, props, secrets⟩
  let before := (← get).calls
  modify fun state => { state with calls := before ++ [call] }
  let result ← Run.ofAttempt (b before call)
  Run.inContext (·.setResult s.id result)
  Run.note ("Node " ++ s.id ++ " completed")

/-- Executes a graph from a node on, along the edges. -/
def interpret (p : Plan) (b : Behaviour) (secrets : Value) (id : String) (h : p.Ends id) :
    Run Unit :=
  match hs : p.step? id with
  | none => return
  | some s => do
    Run.note ("Executing node " ++ s.id)
    match s.form with
    | .trigger | .unsupported | .join =>
      onward (p.nextTarget id) fun t ht =>
        interpret p b secrets t (h.of_leads (Plan.leads_nextTarget hs ht))
    | .action => do
      perform b secrets s
      onward (p.nextTarget id) fun t ht =>
        interpret p b secrets t (h.of_leads (Plan.leads_nextTarget hs ht))
    | .branch => do
      let port := if (← Run.formula s.condition).truthy then "true" else "false"
      onward (p.portTarget id port) fun t ht =>
        interpret p b secrets t (h.of_leads (Plan.leads_portTarget hs ht))
    | .subject => do
      let _ ← Run.formula s.subject
      onward (p.portTarget id "default") fun t ht =>
        interpret p b secrets t (h.of_leads (Plan.leads_portTarget hs ht))
    | .select cases => do
      let text ← Run.ofAttempt (← Run.formula s.subject).shown.attempt
      let port := (cases.find? (· = text)).getD "default"
      onward (p.portTarget id port) fun t ht =>
        interpret p b secrets t (h.of_leads (Plan.leads_portTarget hs ht))
    | .loop => do
      let items ← loopItems s
      let body := onward (p.portTarget id "body") fun t ht =>
        interpret p b secrets t (h.of_leads (Plan.leads_portTarget hs ht))
      runBatches s body (batches s.batchSize 0 items)
      onward (p.portTarget id "done") fun t ht =>
        interpret p b secrets t (h.of_leads (Plan.leads_portTarget hs ht))
    | .unreadable f => throw (.ofFault f)
termination_by (⟨id, h⟩ : { id // Acc (fun b a => p.Leads a b) id })
decreasing_by
  all_goals first
    | exact Plan.leads_nextTarget hs ht
    | exact Plan.leads_portTarget hs ht

/-- Executes a graph from the node on that a target names, if it names one. -/
def follow (p : Plan) (b : Behaviour) (secrets : Value) (target : Option String)
    (h : ∀ id, target = some id → p.Ends id) : Run Unit :=
  onward target fun id hid => interpret p b secrets id (h id hid)

/-! ## Walks -/

variable {p : Plan} {b : Behaviour} {secrets : Value} {resume : String → Run Unit}

theorem interpret_missing {id : String} (hs : p.step? id = none) (h : p.Ends id) :
    interpret p b secrets id h = pure () := by
  rw [interpret]
  split
  · rfl
  · next hs' => simp [hs] at hs'

/-- An action whose configuration has a literal is executed on the interpolated configuration. -/
theorem runAction_eq {s : Step} (h : s.config = .ok (Value.ofFields s.data)) :
    runAction b secrets s = perform b secrets s := by
  simp only [runAction, perform, Step.props_eq h]

theorem runArms_eq (resume : String → Run Unit) (value : String) (next : String → List Block)
    (other : Run Unit) (cases : List String) :
    runArms b secrets resume value other (cases.map fun c => (c, next c)) =
      match cases.find? (· = value) with
      | some c => runBlocks b secrets resume (next c)
      | none => other := by
  induction cases with
  | nil => rfl
  | cons c rest ih =>
    rw [List.map_cons, runArms, List.find?_cons]
    by_cases hc : c = value
    · simp [hc]
    · simp [hc, Ne.symm hc, ih]

/-- A block does what the graph says: the literal of an action denotes its configuration, and what
is resumed at a join is what follows it. -/
def Block.Agrees (p : Plan) (b : Behaviour) (secrets : Value) (resume : String → Run Unit) :
    Block → Prop
  | .action s => s.config = .ok (Value.ofFields s.data)
  | .join s => ∀ h, resume s.id = follow p b secrets (p.nextTarget s.id) h
  | .unreadable _ _ => False
  | _ => True

/-- One step: if the blocks from each next node on do what the graph says, so do the step's. -/
theorem runBlocks_stepBlocks {id : String} {s : Step} {next : Option String → List Block}
    (hs : p.step? id = some s) (h : p.Ends id)
    (hagree : ∀ block ∈ blocksIn (stepBlocks p s next), block.Agrees p b secrets resume)
    (hnext : ∀ t ∈ stepTargets p s, ∀ ht,
      runBlocks b secrets resume (next t) = follow p b secrets t ht) :
    runBlocks b secrets resume (stepBlocks p s next) = interpret p b secrets id h := by
  obtain rfl := Plan.step?_id hs
  have next_ends : ∀ t, p.nextTarget s.id = some t → p.Ends t := fun _ ht =>
    h.of_leads (Plan.leads_nextTarget hs ht)
  have port_ends : ∀ port t, p.portTarget s.id port = some t → p.Ends t := fun _ _ ht =>
    h.of_leads (Plan.leads_portTarget hs ht)
  rw [interpret]
  split
  · next hs' => simp [hs] at hs'
  next s' hs' =>
  obtain rfl : s = s' := by simpa [hs] using hs'
  unfold stepTargets at hnext
  unfold stepBlocks at hagree ⊢
  unfold follow at hnext
  cases hf : s.form with
  | trigger | unsupported =>
    simp only [hf, List.mem_singleton, forall_eq] at hnext ⊢
    simp only [runBlocks, runBlock, hnext next_ends]
  | action =>
    simp only [hf, List.mem_singleton, forall_eq] at hnext hagree ⊢
    have hconfig : s.config = .ok (Value.ofFields s.data) := hagree (.action s) List.mem_cons_self
    simp only [runBlocks, runBlock, hnext next_ends, runAction_eq hconfig, bind_assoc]
  | branch =>
    simp only [hf] at hnext ⊢
    have hyes := hnext (p.portTarget s.id "true") (by simp) (port_ends _)
    have hno := hnext (p.portTarget s.id "false") (by simp) (port_ends _)
    simp only [runBlocks, runBlock, hyes, hno, bind_assoc]
    refine bind_congr fun _ => bind_congr fun v => ?_
    change _ = follow p b secrets (p.portTarget s.id (if v.truthy then "true" else "false"))
      (port_ends _)
    cases v.truthy <;> simp [follow]
  | subject =>
    simp only [hf, List.mem_singleton, forall_eq] at hnext ⊢
    simp only [runBlocks, runBlock, hnext (port_ends _), bind_assoc, pure_bind]
  | select cases =>
    simp only [hf, List.mem_append, List.mem_map, List.mem_singleton] at hnext ⊢
    have hother := hnext (p.portTarget s.id "default") (.inr rfl) (port_ends _)
    have hcase := fun c hc => hnext (p.portTarget s.id c) (.inl ⟨c, hc, rfl⟩) (port_ends _)
    simp only [runBlocks, runBlock, bind_assoc, runArms_eq]
    refine bind_congr fun _ => bind_congr fun v => bind_congr fun text => ?_
    change _ = follow p b secrets (p.portTarget s.id ((cases.find? (· = text)).getD "default"))
      (port_ends _)
    cases hc : cases.find? (· = text) with
    | none => simp [hother, follow]
    | some c => simp [hcase c (List.mem_of_find?_eq_some hc), follow]
  | loop =>
    simp only [hf] at hnext ⊢
    have hbody := hnext (p.portTarget s.id "body") (by simp) (port_ends _)
    have hdone := hnext (p.portTarget s.id "done") (by simp) (port_ends _)
    simp only [runBlocks, runBlock, hbody, hdone, bind_assoc]
  | join =>
    simp only [hf] at hagree
    have hresume := hagree (.join s) List.mem_cons_self next_ends
    simp only [runBlocks, runBlock, hresume, follow, bind_assoc, bind_pure_unit]
  | unreadable f =>
    simp only [hf] at hagree
    exact (hagree (.unreadable s f) List.mem_cons_self).elim

theorem stepBlocks_ne_nil (p : Plan) (s : Step) (next : Option String → List Block) :
    stepBlocks p s next ≠ [] := by
  unfold stepBlocks
  split <;> simp

/-- A walk whose path is clear does what the graph says, if its blocks do. -/
theorem runBlocks_walk (path : List String) (start : Option String) (hclear : p.Clear path start)
    (hagree : ∀ block ∈ blocksIn (walk p path start), block.Agrees p b secrets resume) :
    runBlocks b secrets resume (walk p path start) = follow p b secrets start hclear.ends := by
  induction path, start using walk_induct p with
  | stop path start hw =>
    rw [hw, runBlocks]
    match start, hclear with
    | none, _ => rfl
    | some id, hclear =>
      cases hs : p.step? id with
      | none => exact (interpret_missing hs _).symm
      | some s =>
        rw [walk_enter (hclear id rfl id .refl).1 hs] at hw
        exact absurd hw (stepBlocks_ne_nil p s _)
  | enter path id s hp hs ih =>
    rw [walk_enter hp hs] at hagree ⊢
    refine runBlocks_stepBlocks hs _ hagree fun t ht _ => ?_
    exact ih t (hclear.cons fun t' he => leads_of_mem_stepTargets hs (he ▸ ht))
      fun block hb => hagree block (mem_blocksIn_of_target ht hb)

/-! ## Flows -/

theorem leads_firstStep {s : Step} (hs : p.step? p.entry = some s) {t : String}
    (ht : firstStep? p = some t) : p.Leads p.entry t := by
  obtain ⟨e, he, rfl⟩ := Option.map_eq_some_iff.mp ht
  obtain ⟨hm, hsource⟩ := List.mem_filter.mp (List.mem_of_find?_eq_some he)
  exact ⟨by simp [hs], e, hm, by simpa using hsource, rfl⟩

/-- The edges lead to a block from the entry, and from each of the joins within whose continuations
it is. -/
structure Precedes (p : Plan) (within : List String) (block : Block) : Prop where
  step : p.step? block.step.id = some block.step
  entry : ReflTransGen p.Leads p.entry block.step.id
  joins : ∀ k ∈ within, TransGen p.Leads k block.step.id

theorem Precedes.inner {within : List String} {s : Step} (h : Precedes p within (.join s))
    {block : Block} (hb : block ∈ blocksIn (continuationOf p within s.id).body) :
    Precedes p (within ++ [s.id]) block := by
  obtain ⟨t, ht, hr⟩ := walk_reaches hb
  have hlead : TransGen p.Leads s.id block.step.id :=
    TransGen.head' (Plan.leads_nextTarget h.step ht) hr
  refine ⟨(mem_walk hb).1, h.entry.trans hlead.to_reflTransGen, fun k hk => ?_⟩
  rcases List.mem_append.mp hk with hk | hk
  · exact (h.joins k hk).trans hlead
  · rwa [List.mem_singleton.mp hk]

namespace Flow

variable {f : Flow} {s : Step}

/-- Without cycles, nothing that follows a join is on the path of its continuation. -/
theorem clear_continuation (hf : flowOf p = .ok f) (hs : p.step? p.entry = some s)
    (hac : p.AcyclicFrom p.entry) {c : Continuation} (hc : c ∈ f.continuations) :
    p.Clear c.within (p.nextTarget c.join) := by
  obtain ⟨hmain, hbuilt⟩ := flowOf_eq_ok hf
  obtain ⟨within, j, hj, rfl⟩ := hbuilt.exists_join (P := Precedes p)
    (fun v hv => by
      obtain ⟨visit, hvisit, rfl⟩ := List.mem_map.mp hv
      have hb : visit.block ∈ blocksIn (walk p [p.entry] (firstStep? p)) := by
        rw [← hmain]
        exact List.mem_map_of_mem hvisit
      obtain ⟨t, ht, hr⟩ := walk_reaches hb
      exact ⟨(mem_walk hb).1, .head (leads_firstStep hs ht) hr, by simp⟩)
    (fun _ _ h _ _ hb => h.inner hb) c hc
  intro t ht a ha
  have hlead : TransGen p.Leads j.id a := TransGen.head' (Plan.leads_nextTarget hj.step ht) ha
  have hcycle := hac a (hj.entry.trans hlead.to_reflTransGen)
  refine ⟨fun hm => ?_, hcycle⟩
  rcases List.mem_append.mp hm with hm | hm
  · exact hcycle ((hj.joins a hm).trans hlead)
  · exact hcycle (List.mem_singleton.mp hm ▸ hlead)

theorem clear_main (hs : p.step? p.entry = some s) (hac : p.AcyclicFrom p.entry) :
    p.Clear [p.entry] (firstStep? p) := by
  intro t ht a ha
  have hlead : TransGen p.Leads p.entry a := TransGen.head' (leads_firstStep hs ht) ha
  have hcycle := hac a hlead.to_reflTransGen
  exact ⟨fun hm => hcycle (List.mem_singleton.mp hm ▸ hlead), hcycle⟩

/-- The literals that the text of a flow gives for the configurations of actions denote them. -/
def LiteralsDenote (f : Flow) : Prop :=
  ∀ s, Block.action s ∈ f.written → s.config = .ok (Value.ofFields s.data)

theorem literalsDenote (hf : flowOf p = .ok f)
    (h : ∀ s ∈ p.steps, s.config = .ok (Value.ofFields s.data)) : f.LiteralsDenote := by
  obtain ⟨hmain, -⟩ := flowOf_eq_ok hf
  intro s hs
  have hstep : ∃ path start, Block.action s ∈ blocksIn (walk p path start) := by
    rcases (mem_written hf).mp hs with hb | ⟨c, hc, hb⟩
    · exact ⟨_, _, hmain ▸ hb⟩
    · exact ⟨_, _, body_eq hf hc ▸ hb⟩
  obtain ⟨path, start, hb⟩ := hstep
  exact h s (List.mem_of_find?_eq_some (mem_walk hb).1)

theorem agrees (hf : flowOf p = .ok f) (hlit : f.LiteralsDenote) {block : Block}
    (hb : block ∈ f.written)
    (hresume : ∀ s, block = .join s → ∀ h, resume s.id = follow p b secrets (p.nextTarget s.id) h) :
    block.Agrees p b secrets resume := by
  cases block with
  | action s => exact hlit s hb
  | join s => exact hresume s rfl
  | unreadable s fault => exact (flowOf_eq_ok hf).2.readable s fault hb
  | _ => trivial

variable (hf : flowOf p = .ok f) (hs : p.step? p.entry = some s) (hac : p.AcyclicFrom p.entry)
  (hlit : f.LiteralsDenote)

include hf hs hac hlit

/-- What is resumed at a join is what follows it in the graph. -/
theorem resume_eq_follow {k : String} (hk : k ∈ f.continuations.map (·.join)) : ∀ h,
    resumeWithin f b secrets f.continuations.length k = follow p b secrets (p.nextTarget k) h := by
  refine join_induct hf (fun c hc ih h => ?_) hk
  rw [resume_eq hf hc, body_eq hf hc]
  refine runBlocks_walk _ _ (clear_continuation hf hs hac hc) fun block hb => ?_
  rw [← body_eq hf hc] at hb
  refine agrees hf hlit ((mem_written hf).mpr (.inr ⟨c, hc, hb⟩)) ?_
  rintro j rfl
  exact ih j.id (mem_joinsOf.mpr ⟨j, hb, rfl⟩)

/-- The flow of a graph without cycles does what the graph says. -/
theorem run_eq_follow :
    f.run b secrets = follow p b secrets (firstStep? p) (clear_main hs hac).ends := by
  have hmain := (flowOf_eq_ok hf).1
  rw [Flow.run, hmain]
  refine runBlocks_walk _ _ (clear_main hs hac) fun block hb => ?_
  rw [← hmain] at hb
  refine agrees hf hlit ((mem_written hf).mpr (.inl hb)) ?_
  rintro j rfl
  have hj : j.id ∈ joinsOf f.main := mem_joinsOf.mpr ⟨j, hb, rfl⟩
  exact resume_eq_follow hf hs hac hlit (Awaits.mem hf (.inl hj))

end Flow

/-! ## Requests -/

/-- The answer of a run that an error has ended. -/
def failed (e : Raised) (s : RunState) : Response × RunState :=
  let s := { s with log := s.log.recordError "Workflow execution failed" e }
  match Response.json (failureReport e s) 500 with
  | .ok response => (response, s)
  | .error _ => (Response.empty 500, s)

/-- The answer to an accepted request, given how its execution ended. -/
def conclude : Except Raised Unit × RunState → Response × RunState
  | (.error e, s) => failed e s
  | (.ok (), s) =>
    match Response.json (Value.ofFields [("success", .bool true), ("result", s.context.result),
      ("logs", .list (s.log.entries.map (·.toValue)))]) 200 with
    | .ok response => (response, s)
    | .error e => failed e s

theorem failed_calls (e : Raised) (s : RunState) :
    (failed e s).2.calls = s.calls ∧ (failed e s).2.context = s.context := by
  unfold failed
  dsimp only
  split <;> exact ⟨rfl, rfl⟩

/-- Answering leaves the calls and the context as the execution left them. -/
theorem conclude_calls (outcome : Except Raised Unit × RunState) :
    (conclude outcome).2.calls = outcome.2.calls ∧
      (conclude outcome).2.context = outcome.2.context := by
  unfold conclude
  split
  · exact failed_calls ..
  · split
    · exact ⟨rfl, rfl⟩
    · exact failed_calls ..

theorem fetch_calls (h : Handler) (b : Behaviour) (o : Occasion) (env : Variables) (r : Request) :
    (h.fetch b o env r).2.calls = ((h.attempt b o.now env r).run.run (start o env)).2.calls := by
  unfold fetch
  split
  · next hr => rw [hr]
  · next e s hr =>
    rw [hr]
    exact (failed_calls e s).1

theorem fetch_accepted {h : Handler} {o : Occasion} {env : Variables} {r : Request} {s : RunState}
    (hs : (h.guard.judge o.now env r).run.run (start o env) = (.ok .accepted, s)) (b : Behaviour) :
    h.fetch b o env r = conclude ((h.flow.run b (h.secretsIn env)).run.run s) := by
  rw [fetch, attempt, run_bind, hs]
  simp only [run_bind]
  cases hr : (h.flow.run b (h.secretsIn env)).run.run s with
  | mk outcome s' =>
    cases outcome with
    | error e => rfl
    | ok u =>
      simp only [conclude, Run.logs, run_bind, run_get, run_pure]
      cases Response.json _ 200 <;> rfl

/-- **The handler of a graph without cycles does what the graph says.** For every request that the
trigger accepts and whatever the nodes do, the flow comes to the same end as the interpreter, from
the state after the trigger: the same calls, with the same properties and secrets, the same context,
and the same error if there is one. The answer tells of nothing else. -/
theorem execution_eq_interpretation {h : Handler} (hp : ofPlan p = .ok h)
    (hac : p.AcyclicFrom p.entry) (hlit : h.flow.LiteralsDenote) {o : Occasion} {env : Variables}
    {r : Request} {s : RunState}
    (haccept : (h.guard.judge o.now env r).run.run (start o env) = (.ok .accepted, s))
    (b : Behaviour) :
    ∃ hends : ∀ id, firstStep? p = some id → p.Ends id,
      let direct := (follow p b (h.secretsIn env) (firstStep? p) hends).run.run s
      (h.flow.run b (h.secretsIn env)).run.run s = direct ∧
        h.fetch b o env r = conclude direct ∧
        (h.fetch b o env r).2.calls = direct.2.calls ∧
        (h.fetch b o env r).2.context = direct.2.context := by
  obtain ⟨-, htrigger, -, -, hf, -⟩ := ofPlan_eq_ok hp
  refine ⟨(Flow.clear_main htrigger hac).ends, ?_⟩
  rw [fetch_accepted haccept, Flow.run_eq_follow hf htrigger hac hlit]
  exact ⟨rfl, rfl, conclude_calls _⟩

/-- The arms of a branch meet again, and what follows is executed for each item of a list. -/
def reunion : Plan where
  steps := [
    { id := "start", kind := "trigger-manual", role := .trigger, data := [], structural := false,
      category := .core },
    { id := "which", kind := "if", role := .action, data := [("condition", .str "input")],
      structural := true, category := .core },
    { id := "here", kind := "value", role := .action, data := [("value", .int 1)],
      structural := false, category := .core },
    { id := "there", kind := "value", role := .action, data := [("value", .int 2)],
      structural := false, category := .core },
    { id := "meet", kind := "merge", role := .action, data := [], structural := true,
      category := .core },
    { id := "each", kind := "for", role := .action, data := [("iterator", .str "[1, 2]")],
      structural := true, category := .core },
    { id := "one", kind := "value", role := .action, data := [("value", .str "{{ item }}")],
      structural := false, category := .core }]
  edges := [
    { source := "start", target := "which" },
    { source := "which", target := "here", sourcePort := some "true" },
    { source := "which", target := "there", sourcePort := some "false" },
    { source := "here", target := "meet" },
    { source := "there", target := "meet" },
    { source := "meet", target := "each" },
    { source := "each", target := "one", sourcePort := some "body" }]
  entry := "start"
  hasCycle := false
  depth := 5

theorem guard_manual {h : Handler} (hp : ofPlan p = .ok h) {s : Step}
    (hs : p.step? p.entry = some s) (hk : TriggerKind.ofKind? s.kind = some .manual) :
    h.guard = .manual := by
  obtain ⟨kind, htrigger, hkind, hguard, -⟩ := ofPlan_eq_ok hp
  rw [← Option.some.inj (hs.symm.trans htrigger)] at hkind
  cases hk.symm.trans hkind
  exact (Except.ok.inj hguard).symm

theorem judge_manual (now : String) (env : Variables) {r : Request}
    (h : r.bearerToken.isNone = false) (s : RunState) :
    (Guard.judge .manual now env r).run.run s = (.ok .accepted,
      { s with context := (s.context.bind "input" r.jsonBody).bind "triggeredAt" (.str now) }) := by
  simp only [Guard.judge, h]
  rfl

/-- A request that starts a run by hand. -/
def signedIn : Request := ⟨"POST", "/", [("authorization", "Bearer key")], [], []⟩

theorem signedIn_token : signedIn.bearerToken.isNone = false := by decide +kernel

theorem execution_eq_interpretation_reunion : ∃ h s, ofPlan reunion = .ok h ∧
    reunion.AcyclicFrom reunion.entry ∧ h.flow.LiteralsDenote ∧
    (h.guard.judge "now" [] signedIn).run.run (start ⟨"now", "w", "e"⟩ []) = (.ok .accepted, s) ∧
    ∀ b, ∃ hends, h.fetch b ⟨"now", "w", "e"⟩ [] signedIn =
      conclude ((follow reunion b (h.secretsIn []) (some "which") hends).run.run s) := by
  obtain ⟨h, hp⟩ := exists_eq_ok (x := ofPlan reunion) (by cbv)
  obtain ⟨-, -, -, -, hf, -⟩ := ofPlan_eq_ok hp
  have hac : reunion.AcyclicFrom reunion.entry :=
    Plan.acyclicFrom_of_rank (fun id => reunion.steps.reverse.findIdx (·.id = id)) (by decide) _
  have hlit : h.flow.LiteralsDenote := Flow.literalsDenote hf (by
    simp only [reunion, List.forall_mem_cons]
    exact ⟨rfl, rfl, rfl, rfl, rfl, rfl, rfl, by simp⟩)
  obtain ⟨s, hs⟩ : ∃ s, (h.guard.judge "now" [] signedIn).run.run (start ⟨"now", "w", "e"⟩ []) =
      (.ok .accepted, s) := ⟨_, guard_manual hp rfl rfl ▸ judge_manual _ _ signedIn_token _⟩
  refine ⟨h, s, hp, hac, hlit, hs, fun b => ?_⟩
  obtain ⟨hends, -, hfetch, -⟩ :=
    execution_eq_interpretation hp hac hlit (o := ⟨"now", "w", "e"⟩) hs b
  exact ⟨hends, hfetch⟩

end Handler

end Workflow
