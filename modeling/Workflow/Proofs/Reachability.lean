/-
Nodes that cannot be reached are reported, and never executed.

Analysis and generation look at edges in different ways: the analysis knows
edges between nodes only, while the generation follows the first edge that
leaves a step, wherever it leads. The report is exact (`Graph.unreachable_eq`),
and since a walk of the generation passes through nodes only, it is a way of the
analysis too (`Graph.reaches_of_leads`): whatever is written can be reached.

A run executes blocks that are written and nothing else (`Flow.spares_run`), by
what one moment of it executes (`Job.does_executed`); guards and answers execute
no node.
-/
import Workflow.Proofs.Dangling
import Workflow.Proofs.Document
import Workflow.Proofs.Outcome

namespace Workflow

open Relation Handler

namespace Graph

/-! ## Connected nodes -/

/-- An edge between two nodes leads from the one to the other. -/
def Joins (g : Graph) (a b : String) : Prop :=
  ∃ e ∈ g.edges, g.connects e ∧ e.source = a ∧ e.target = b

/-- A node can be reached from another, by way of nodes only. -/
def Reaches (g : Graph) : String → String → Prop := ReflTransGen g.Joins

variable {g : Graph} {a b start id : String}

theorem has_iff : g.has id ↔ id ∈ g.ids := by simp [has, ids]

theorem mem_successors : b ∈ g.successors a ↔ g.Joins a b := by
  simp only [successors, Joins, List.mem_map, List.mem_filter, Bool.and_eq_true, decide_eq_true_eq]
  constructor
  · rintro ⟨e, ⟨he, hs, hc⟩, ht⟩
    exact ⟨e, he, hc, hs, ht⟩
  · rintro ⟨e, he, hc, hs, ht⟩
    exact ⟨e, ⟨he, hs, hc⟩, ht⟩

theorem Joins.mem_ids (h : g.Joins a b) : b ∈ g.ids := by
  obtain ⟨e, -, hc, -, rfl⟩ := h
  exact has_iff.mp (Bool.and_eq_true_iff.mp hc).2

/-- The walk of the graph comes to just what can be reached by at least one edge. -/
theorem mem_reachable_successors :
    id ∈ reachable g.successors g.ids (g.successors start) ↔ TransGen g.Joins start id := by
  rw [mem_reachable]
  constructor
  · intro h
    induction h with
    | start ha _ => exact .single (mem_successors.mp ha)
    | step _ hb _ ih => exact ih.tail (mem_successors.mp hb)
  · intro h
    induction h with
    | single h => exact .start (mem_successors.mpr h) h.mem_ids
    | tail _ h ih => exact .step ih (mem_successors.mpr h) h.mem_ids

theorem reaches_iff : g.Reaches start id ↔
    id ∈ start :: reachable g.successors g.ids (g.successors start) := by
  rw [List.mem_cons, mem_reachable_successors, Reaches, reflTransGen_iff_eq_or_transGen]

instance (g : Graph) (start id : String) : Decidable (g.Reaches start id) :=
  decidable_of_iff _ reaches_iff.symm

/-- The nodes that are reported as disconnected are just those that cannot be reached, in order. -/
theorem unreachable_eq (g : Graph) (start : String) :
    g.unreachable start = g.ids.filter fun id => ¬ g.Reaches start id := by
  simp only [unreachable, reaches_iff]

/-- A way that the generation may take between nodes is a way in the graph. -/
theorem reaches_of_leads {p : Plan} (hp : g.plan? = some p) (hb : (p.step? b).isSome)
    (h : ReflTransGen p.Leads a b) : g.Reaches a b := by
  induction h using ReflTransGen.head_induction_on with
  | refl => exact .refl
  | @head a c hlead hrest ih =>
    refine .head ?_ ih
    obtain ⟨ha, e, he, rfl, rfl⟩ := hlead
    have hc : (p.step? e.target).isSome := by
      rcases hrest.cases_head with rfl | ⟨d, hd, -⟩
      · exact hb
      · exact hd.1
    rw [g.isSome_step? hp] at ha hc
    obtain ⟨entry, -, rfl⟩ := Option.map_eq_some_iff.mp hp
    exact ⟨e, he, by simp [connects, ha, hc], rfl, rfl⟩

theorem node_of_step? {p : Plan} (hp : g.plan? = some p) {s : Step} (hs : p.step? id = some s) :
    ∃ n ∈ g.nodes, g.step n = s := by
  obtain ⟨entry, -, rfl⟩ := Option.map_eq_some_iff.mp hp
  exact List.mem_map.mp (List.mem_of_find?_eq_some hs)

end Graph

/-! ## What a run executes -/

/-- A node has been executed in a run: it was called, or the log says so. -/
def RunState.Executed (s : RunState) (id : String) : Prop :=
  (∃ c ∈ s.calls, c.node = id) ∨ ∃ entry ∈ s.log.entries, entry.message = "Executing node " ++ id

theorem RunState.Executed.of_record {level : LogLevel} {message : String} {data : Value}
    {s : RunState} {id : String}
    (h : ({ s with log := s.log.record level message data } : RunState).Executed id) :
    s.Executed id ∨ message = "Executing node " ++ id := by
  rcases h with hc | ⟨entry, he, hm⟩
  · exact .inl (.inl hc)
  · rcases List.mem_append.mp he with he | he
    · exact .inl (.inr ⟨entry, he, hm⟩)
    · cases List.mem_singleton.mp he
      exact .inr hm

/-- To log something else executes nothing. -/
theorem RunState.Executed.of_other {level : LogLevel} {message : String} {data : Value}
    {s : RunState} {id : String}
    (h : ({ s with log := s.log.record level message data } : RunState).Executed id)
    (hm : message.toList.head? ≠ some 'E') : s.Executed id :=
  h.of_record.resolve_right fun he => hm (by simp [he])

theorem RunState.Executed.of_asked {s : RunState} {id : String} {c : Call}
    (h : (asked s c).Executed id) : s.Executed id ∨ c.node = id := by
  rcases h with ⟨c', hc, hid⟩ | hlog
  · rcases List.mem_append.mp hc with hc | hc
    · exact .inl (.inl ⟨c', hc, hid⟩)
    · cases List.mem_singleton.mp hc
      exact .inr hid
  · exact .inl (.inr hlog)

theorem RunState.Executed.of_failed {s : RunState} {id : String} {e : Raised}
    (h : (failed e s).2.Executed id) : s.Executed id := by
  have hlog : (failed e s).2 =
      { s with log := s.log.recordError "Workflow execution failed" e } := by
    unfold failed
    dsimp only
    split <;> rfl
  rw [hlog] at h
  exact h.of_other (by simp)

namespace Handler

variable {g : Graph} {p : Plan} {h : Handler} {b : Behaviour} {secrets : Value}

/-- Every block that is written is of a node that can be reached. -/
theorem reaches_of_written (hp : g.plan? = some p) (hh : ofPlan p = .ok h) {block : Block}
    (hb : block ∈ h.flow.written) : g.Reaches p.entry block.step.id := by
  obtain ⟨-, hentry, -, -, hf, -⟩ := ofPlan_eq_ok hh
  have hm : block.step ∈ h.flow.steps := by
    refine List.mem_map_of_mem ?_
    rcases (Flow.mem_written hf).mp hb with hb | ⟨c, hc, hb⟩
    · exact List.mem_append_left _ hb
    · exact List.mem_append_right _ (List.mem_flatMap.mpr ⟨c, hc, hb⟩)
  obtain ⟨hstep, hway⟩ := (Flow.after_entry hf hentry).1 _ hm
  exact Graph.reaches_of_leads hp (by rw [hstep]; rfl) hway.to_reflTransGen

/-- A part of a run does not execute a node. -/
def Spares (id : String) {α : Type} (x : Run α) : Prop :=
  ∀ s, (x.run.run s).2.Executed id → s.Executed id

variable {s : RunState} {id : String}

theorem spares_pure {α : Type} (a : α) : Spares id (pure a : Run α) := fun _ h => h

theorem spares_ofAttempt {α : Type} (x : Attempt α) : Spares id (Run.ofAttempt x) := by
  intro s h
  rwa [run_ofAttempt] at h

theorem spares_bindAll (names : Names) : Spares id (Run.bindAll names) := fun _ h => h

theorem spares_formula (text : String) : Spares id (Run.formula text) := by
  intro s h
  rwa [run_formula] at h

theorem Spares.bind {α β : Type} {x : Run α} {k : α → Run β} (hx : Spares id x)
    (hk : ∀ a, Spares id (k a)) : Spares id (x >>= k) := by
  intro s h
  rw [run_bind] at h
  have hs := hx s
  revert h hs
  cases x.run.run s with
  | mk outcome s' =>
    cases outcome with
    | ok a => exact fun h hs => hs (hk a s' h)
    | error e => exact fun h hs => hs h

/-- A guard executes no node. -/
theorem spares_judge (g : Guard) (now : String) (env : Variables) (r : Request) :
    Spares id (g.judge now env r) := by
  cases g with
  | manual =>
    rw [Guard.judge]
    split
    · exact spares_pure _
    · exact (spares_bindAll _).bind fun _ => spares_pure _
  | webhook methods access =>
    rw [Guard.judge]
    split
    · exact spares_pure _
    · split
      · exact spares_pure _
      · exact (spares_ofAttempt _).bind fun _ => (spares_bindAll _).bind fun _ => spares_pure _
  | cron schedule condition =>
    unfold Guard.judge
    dsimp only
    split
    · exact spares_pure _
    · refine (spares_bindAll _).bind fun _ => ?_
      split
      · exact spares_pure _
      · refine (spares_formula _).bind fun v => ?_
        split
        · exact spares_pure _
        · exact Spares.bind (fun s h => h.of_other (by simp)) fun _ => spares_pure _

/-- In one moment no node is executed but the one that is entered. -/
theorem Job.does_executed {f : Flow} {t : Job} {outcome : Except Raised (List Job)} {s' : RunState}
    (h : t.does f b secrets s = (outcome, s')) (hid : s'.Executed id) :
    s.Executed id ∨ ∃ block, t = .enter block ∧ block.step.id = id := by
  cases t with
  | batch st body position items =>
    cases h
    exact .inl hid
  | enter block =>
    have hentered : (s.entered block.step.id).Executed id →
        s.Executed id ∨ ∃ block', Job.enter block = .enter block' ∧ block'.step.id = id := by
      intro hid
      exact hid.of_record.imp_right fun hm => ⟨block, rfl, (String.append_right_inj _).mp hm⟩
    by_cases hb : ∃ st, block = .action st
    · obtain ⟨st, rfl⟩ := hb
      have hacted := acted b secrets st (s.entered st.id)
      have hs' : ((runAction b secrets st).run.run (s.entered st.id)).2 = s' := congrArg Prod.snd h
      generalize (runAction b secrets st).run.run (s.entered st.id) = acts at hacted hs'
      subst hs'
      have hasked : ∀ c : Call, c.node = st.id → (asked (s.entered st.id) c).Executed id →
          s.Executed id ∨ ∃ block, Job.enter (.action st) = .enter block ∧ block.step.id = id :=
        fun c hc hid => hid.of_asked.elim hentered fun hnode => .inr ⟨_, rfl, hc.symm.trans hnode⟩
      cases hacted with
      | unprepared => exact hentered hid
      | refused => exact hasked _ rfl hid
      | returned => exact hasked _ rfl (hid.of_other (by simp))
    · rw [does_control fun st hst => hb ⟨st, hst⟩] at h
      cases h
      exact hentered hid

/-- A run of a flow executes no node but those of its blocks. -/
theorem Flow.spares_run {f : Flow} (hf : flowOf p = .ok f)
    (hid : ∀ block ∈ f.written, block.step.id ≠ id) : Spares id (f.run b secrets) := by
  intro s hrun
  have hmoment : ∀ t s₁ outcome s₂, f.Covers [t] → (s₁.Executed id → s.Executed id) →
      t.does f b secrets s₁ = (outcome, s₂) → s₂.Executed id → s.Executed id := by
    intro t s₁ outcome s₂ ht hs₁ hdoes hs₂
    rcases Job.does_executed hdoes hs₂ with h | ⟨block, rfl, rfl⟩
    · exact hs₁ h
    · refine absurd rfl (hid block (ht _ List.mem_cons_self block ?_))
      cases block <;> simp [Job.blocks, blocksIn, visitsOf, Block.visits]
  cases h : (f.run b secrets).run.run s with
  | mk outcome s' =>
    rw [h] at hrun
    cases outcome with
    | ok u =>
      have hcompletes := (Flow.run_eq_ok hf).mp h
      exact (Reached.induct hf (P := fun s' => s'.Executed id → s.Executed id)
        (fun t s₁ _ s₂ => hmoment t s₁ _ s₂) (fun h => h) hcompletes).2 hrun
    | error e =>
      obtain ⟨_, hreached, hraises⟩ := (Flow.run_eq_error hf).mp h
      cases hraises with
      | @now t rest s₁ _ _ hdoes =>
        obtain ⟨hcovers, hs₁⟩ := Reached.induct hf (P := fun s' => s'.Executed id → s.Executed id)
          (fun t s₁ _ s₂ => hmoment t s₁ _ s₂) (fun h => h) hreached
        have ht : f.Covers [t] := List.forall_mem_singleton.mpr (List.forall_mem_cons.mp hcovers).1
        exact hmoment t s₁ _ s' ht hs₁ hdoes hrun

/-- No request makes a handler execute a node that is not in its blocks. -/
theorem fetch_spares (hf : flowOf p = .ok h.flow)
    (hid : ∀ block ∈ h.flow.written, block.step.id ≠ id) (o : Occasion) (env : Variables)
    (r : Request) : ¬ (h.fetch b o env r).2.Executed id := by
  have hattempt : Spares id (h.attempt b o.now env r) := by
    refine (spares_judge _ _ _ _).bind fun verdict => ?_
    cases verdict with
    | refused reason => exact Spares.bind (fun _ h => h) fun _ => spares_ofAttempt _
    | skipped => exact spares_pure _
    | accepted =>
      refine (Flow.spares_run hf hid).bind fun _ => Spares.bind (fun _ h => h) fun _ =>
        Spares.bind (fun _ h => h) fun _ => spares_ofAttempt _
  have hstart : ¬ (start o env).Executed id := by
    rintro (⟨c, hc, -⟩ | ⟨entry, he, -⟩)
    · exact absurd hc List.not_mem_nil
    · exact absurd he List.not_mem_nil
  have hran := hattempt (start o env)
  intro hfetch
  rw [fetch] at hfetch
  split at hfetch
  · next hr =>
    rw [hr] at hran
    exact hstart (hran hfetch)
  · next e s hr =>
    rw [hr] at hran
    have hfailed : (failed e s).2.Executed id := hfetch
    exact hstart (hran hfailed.of_failed)

/-- **What is reported as disconnected is just what cannot be reached, and is never executed.** From
any start, the nodes reported are those that no way of edges between nodes leads to, in order. Every
node that a handler is written for can be reached from its entry. So no request makes the handler
call a node reported or log that it does, and a kind that is used is that of a node not reported. -/
theorem disconnected_never_executed :
    (∀ (g : Graph) start, g.unreachable start = g.ids.filter fun id => ¬ g.Reaches start id) ∧
    (∀ (g : Graph) p h, g.plan? = some p → ofPlan p = .ok h →
      (∀ block, block ∈ blocksIn h.flow.main ∨
          (∃ c ∈ h.flow.continuations, block ∈ blocksIn c.body) →
        g.Reaches p.entry block.step.id) ∧
      (∀ id ∈ g.unreachable p.entry, ∀ b o env r, ¬ (h.fetch b o env r).2.Executed id) ∧
      ∀ kind ∈ h.kinds, ∃ n ∈ g.nodes, n.kind = kind ∧ n.id ∉ g.unreachable p.entry) ∧
    ∀ nodes edges h c, compileHandler nodes edges = .ok (h, c) → ∃ g p,
      Graph.read nodes edges = .ok g ∧ g.plan? = some p ∧ ofPlan p = .ok h ∧
        c.usedKinds = h.kinds ∧ unreachableWarning (g.unreachable p.entry) <+: c.warnings := by
  refine ⟨Graph.unreachable_eq, fun g p h hp hh => ?_, fun nodes edges h c hc => ?_⟩
  · obtain ⟨-, -, -, -, hf, -⟩ := ofPlan_eq_ok hh
    have hreport : ∀ block ∈ h.flow.written, block.step.id ∉ g.unreachable p.entry := by
      intro block hb hid
      rw [g.unreachable_eq, List.mem_filter, decide_eq_true_eq] at hid
      exact hid.2 (reaches_of_written hp hh hb)
    refine ⟨fun block hb => reaches_of_written hp hh ((Flow.mem_written hf).mpr hb),
      fun id hid b => fetch_spares hf fun block hb he => hreport block hb (he ▸ hid),
      fun kind hk => ?_⟩
    rw [kinds_eq hh] at hk
    obtain ⟨s, hs, rfl⟩ := mem_usedKinds.mp hk
    obtain ⟨n, hn, rfl⟩ := Graph.node_of_step? hp (Flow.step_of_written hf hs).1
    exact ⟨n, hn, rfl, hreport _ hs⟩
  · obtain ⟨-, g, p, hg, hp, hh, rfl⟩ := compileHandler_eq_ok.mp hc
    refine ⟨g, p, hg, hp, hh, rfl, ?_⟩
    rw [planWarnings, List.append_assoc]
    exact List.prefix_append _ _

/-- Two actions in a cycle with a join, an edge to no node, and two nodes that only lead to the
entry. -/
def asideNodes : List Value :=
  [writtenNode "t" "trigger-manual", writtenNode "a" "first", writtenNode "m" "merge",
    writtenNode "b" "second", writtenNode "x" "third", writtenNode "y" "first"]

def asideEdges : List Value :=
  [writtenEdge "t" "a", writtenEdge "a" "m", writtenEdge "m" "b", writtenEdge "b" "a",
    writtenEdge "b" "nowhere", writtenEdge "x" "y", writtenEdge "y" "t"]

def asideGraph : Graph where
  nodes := [{ id := "t", kind := "trigger-manual" }, { id := "a", kind := "first" },
    { id := "m", kind := "merge" }, { id := "b", kind := "second" }, { id := "x", kind := "third" },
    { id := "y", kind := "first" }]
  edges := [{ source := "t", target := "a" }, { source := "a", target := "m" },
    { source := "m", target := "b" }, { source := "b", target := "a" },
    { source := "b", target := "nowhere" }, { source := "x", target := "y" },
    { source := "y", target := "t" }]

theorem aside_never_executed : ∃ h c,
    compileHandler (.list asideNodes) (.list asideEdges) = .ok (h, c) ∧
    c.usedKinds = ["first", "second"] ∧
    unreachableWarning ["x", "y"] <+: c.warnings ∧
    ∀ b o env r, ¬ (h.fetch b o env r).2.Executed "x" := by
  have hread : Graph.read (.list asideNodes) (.list asideEdges) = .ok asideGraph := rfl
  obtain ⟨h, c, hc, hkinds⟩ : ∃ h c, compileHandler (.list asideNodes) (.list asideEdges) =
      .ok (h, c) ∧ c.usedKinds = ["first", "second"] := exists_compileHandler hread (by cbv)
  obtain ⟨-, hexecuted, hcompiled⟩ := disconnected_never_executed
  obtain ⟨g, p, hg, hp, hh, -, hwarn⟩ := hcompiled _ _ h c hc
  cases hread.symm.trans hg
  have hlost : asideGraph.plan?.map (fun p => asideGraph.unreachable p.entry) =
      some ["x", "y"] := by cbv
  rw [hp] at hlost
  have hlost : asideGraph.unreachable p.entry = ["x", "y"] := Option.some.inj hlost
  rw [hlost] at hwarn
  exact ⟨h, c, hc, hkinds, hwarn, (hexecuted _ p h hp hh).2.1 "x" (by simp [hlost])⟩

end Handler

end Workflow
