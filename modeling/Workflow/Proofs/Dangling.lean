/-
What edges that lead from or to no node do to a handler.

The analysis of a graph takes no notice of them, so that without them the shape
of the workflow and what is warned of stay as they are (`Graph.plan?_pruned`).
The generation does: it follows the first edge that leaves a step by an exit,
and if this leads to no node the walk ends, also where a later edge would go on.
Such an exit is blocked (`Plan.Blocked`), and to take the edges away changes the
handler just if the generation comes to one (`ofPlan_pruned_iff`).
-/
import Workflow.Proofs.Repetition
import Workflow.Proofs.Reporting

namespace Workflow

open Relation Handler

/-! ## Exits -/

/-- The exits of a step that a walk goes on by: ports, or any edge at all. -/
def Step.exits (s : Step) : List (Option String) :=
  match s.form with
  | .trigger | .unsupported | .action => [none]
  | .branch => [some "true", some "false"]
  | .subject => [some "default"]
  | .select cases => cases.map some ++ [some "default"]
  | .loop => [some "body", some "done"]
  | .join | .unreadable _ => []

namespace Plan

/-- The target of the first edge that leaves a node by an exit. -/
def exitTarget (p : Plan) (id : String) : Option String → Option String
  | none => p.nextTarget id
  | some port => p.portTarget id port

/-- Whether both ends of an edge exist. -/
def connects (p : Plan) (e : Edge) : Bool := (p.step? e.source).isSome && (p.step? e.target).isSome

/-- The plan without the edges that lead from or to no node. -/
def pruned (p : Plan) : Plan := { p with edges := p.edges.filter p.connects }

/-- The first edge that leaves a node by an exit leads to no node, though a later one leads to a
node that may still be entered. -/
def Blocked (p : Plan) (path : List String) (id : String) (exit : Option String) : Prop :=
  ∃ missing next, p.exitTarget id exit = some missing ∧ p.step? missing = none ∧
    p.pruned.exitTarget id exit = some next ∧ next ∉ path

variable {p : Plan} {id : String} {exit : Option String}

theorem exitTarget_eq (id : String) (exit : Option String) :
    ∃ P : Edge → Bool, (∀ e, P e = true → e.source = id) ∧
      ∀ q : Plan, q.exitTarget id exit = (q.edges.find? P).map (·.target) := by
  cases exit with
  | none => exact ⟨fun e => e.source = id, by simp, fun q => rfl⟩
  | some port =>
    refine ⟨fun e => e.source = id && e.sourcePort = some port, fun e he => ?_, fun q => rfl⟩
    exact of_decide_eq_true (Bool.and_eq_true_iff.mp he).1

/-- An exit leads to the same node without the edges that lead to no node, unless its first edge is
one of them. -/
theorem exitTarget_pruned (hid : (p.step? id).isSome) (exit : Option String) :
    p.pruned.exitTarget id exit = p.exitTarget id exit ∨
      ∃ missing, p.exitTarget id exit = some missing ∧ p.step? missing = none := by
  obtain ⟨P, hP, htarget⟩ := exitTarget_eq id exit
  rw [htarget, htarget]
  cases he : p.edges.find? P with
  | none =>
    left
    rw [List.find?_eq_none] at he
    have hnone : p.pruned.edges.find? P = none :=
      List.find?_eq_none.mpr fun e hm => he e (List.mem_of_mem_filter hm)
    rw [hnone]
  | some e =>
    obtain ⟨hPe, before, after, hedges, hbefore⟩ := List.find?_eq_some_iff_append.mp he
    cases ht : p.step? e.target with
    | none => exact .inr ⟨_, rfl, ht⟩
    | some s =>
      left
      have hc : p.connects e = true := by simp [connects, hP e hPe, hid, ht]
      have hsome : p.pruned.edges.find? P = some e := by
        rw [pruned, List.find?_filter]
        refine List.find?_eq_some_iff_append.mpr ⟨by simp [hc, hPe], before, after, hedges, ?_⟩
        intro a ha
        simp only [Bool.not_eq_eq_eq_not, Bool.not_true] at hbefore ⊢
        simp [hbefore a ha]
      rw [hsome]

/-- Without edges that lead to no node, all exits lead to nodes. -/
theorem step?_of_exitTarget_pruned {next : String} (h : p.pruned.exitTarget id exit = some next) :
    (p.step? next).isSome := by
  obtain ⟨P, -, htarget⟩ := exitTarget_eq id exit
  rw [htarget] at h
  obtain ⟨e, he, rfl⟩ := Option.map_eq_some_iff.mp h
  have hc := (List.mem_filter.mp (List.mem_of_find?_eq_some he)).2
  exact (Bool.and_eq_true_iff.mp hc).2

end Plan

namespace Handler

variable {p : Plan} {path : List String} {start : Option String} {f : Flow}

theorem stepTargets_eq (p : Plan) (s : Step) :
    stepTargets p s = s.exits.map (p.exitTarget s.id) := by
  unfold stepTargets Step.exits
  cases s.form <;> simp [Plan.exitTarget, Function.comp_def]

/-- The blocks of a step tell what follows each of its exits. -/
theorem stepBlocks_eq_iff {p q : Plan} {s : Step} {next next' : Option String → List Block} :
    stepBlocks p s next = stepBlocks q s next' ↔
      ∀ exit ∈ s.exits, next (p.exitTarget s.id exit) = next' (q.exitTarget s.id exit) := by
  unfold stepBlocks Step.exits
  cases s.form with
  | select cases =>
    simp only [List.mem_append, List.mem_map, List.mem_singleton, or_imp, forall_and,
      forall_exists_index, and_imp, forall_apply_eq_imp_iff₂, forall_eq, Plan.exitTarget]
    simp
  | _ => simp [Plan.exitTarget]

/-! ## Walks -/

/-- A walk from a place comes to an exit that is blocked. -/
def BlockedFrom (p : Plan) (place : Place) : Prop :=
  ∃ path id s exit, ReflTransGen (Passes p) place (path, some id) ∧ id ∉ path ∧
    p.step? id = some s ∧ exit ∈ s.exits ∧ p.Blocked (id :: path) id exit

theorem walk_eq_nil {id : String} :
    walk p path (some id) = [] ↔ id ∈ path ∨ p.step? id = none := by
  constructor
  · intro h
    by_contra hno
    simp only [not_or] at hno
    obtain ⟨s, hs⟩ := Option.ne_none_iff_exists'.mp hno.2
    rw [walk_enter hno.1 hs] at h
    exact stepBlocks_ne_nil p s _ h
  · rintro (h | h)
    · exact walk_mem h
    · exact walk_missing h

/-- What a walk goes on with at an exit is the same without the edges that lead to no node, if the
exit is not blocked and what follows there is the same. -/
theorem walk_exit_eq_iff {id : String} (hid : (p.step? id).isSome) (exit : Option String) :
    walk p path (p.exitTarget id exit) = walk p.pruned path (p.pruned.exitTarget id exit) ↔
      ¬ p.Blocked path id exit ∧ walk p path (p.exitTarget id exit) =
        walk p.pruned path (p.exitTarget id exit) := by
  rcases Plan.exitTarget_pruned hid exit with hsame | ⟨missing, ht, hmissing⟩
  · rw [hsame]
    refine ⟨fun h => ⟨?_, h⟩, fun h => h.2⟩
    rintro ⟨missing, next, ht, hmissing, hnext, -⟩
    cases ht.symm.trans (hsame.symm.trans hnext)
    have hsome := Plan.step?_of_exitTarget_pruned hnext
    simp [hmissing] at hsome
  · rw [ht, walk_missing hmissing, walk_missing (p := p.pruned) hmissing, eq_comm]
    simp only [and_true]
    cases hnext : p.pruned.exitTarget id exit with
    | none => simp [Plan.Blocked, hnext]
    | some next =>
      rw [walk_eq_nil]
      have hsome := Plan.step?_of_exitTarget_pruned hnext
      constructor
      · rintro (hp | hnone) ⟨_, next', _, _, hnext', hp'⟩
        · cases hnext.symm.trans hnext'
          exact hp' hp
        · simp [show p.step? next = none from hnone] at hsome
      · intro h
        by_contra hno
        exact h ⟨missing, next, ht, hmissing, hnext, fun hp => hno (.inl hp)⟩

theorem not_blockedFrom_of_stop (hw : walk p path start = []) : ¬ BlockedFrom p (path, start) := by
  -- No place follows one where nothing is entered.
  have hstop : ∀ id s, start = some id → id ∉ path → p.step? id ≠ some s := by
    rintro id s rfl hp hs
    rcases walk_eq_nil.mp hw with h | h
    · exact hp h
    · cases h.symm.trans hs
  rintro ⟨path', id, s, exit, hpass, hp, hs, -, -⟩
  rcases hpass.cases_head with he | ⟨place, hpass, -⟩
  · cases he
    exact hstop id s rfl hp hs
  · cases hpass with
    | enter hp' hs' => exact hstop _ _ rfl hp' hs'

theorem blockedFrom_enter {id : String} {s : Step} (hp : id ∉ path) (hs : p.step? id = some s) :
    BlockedFrom p (path, some id) ↔ ∃ exit ∈ s.exits, p.Blocked (id :: path) id exit ∨
      BlockedFrom p (id :: path, p.exitTarget id exit) := by
  obtain rfl := Plan.step?_id hs
  constructor
  · rintro ⟨path', id', s', exit, hpass, hp', hs', hexit, hblocked⟩
    rcases hpass.cases_head with he | ⟨place, hpass, hrest⟩
    · cases he
      cases hs.symm.trans hs'
      exact ⟨exit, hexit, .inl hblocked⟩
    · cases hpass with
      | enter _ hs'' ht =>
        cases hs.symm.trans hs''
        rw [stepTargets_eq] at ht
        obtain ⟨exit', hexit', rfl⟩ := List.mem_map.mp ht
        exact ⟨exit', hexit', .inr ⟨path', id', s', exit, hrest, hp', hs', hexit, hblocked⟩⟩
  · rintro ⟨exit, hexit, hblocked | ⟨path', id', s', exit', hpass, hrest⟩⟩
    · exact ⟨path, s.id, s, exit, .refl, hp, hs, hexit, hblocked⟩
    · refine ⟨path', id', s', exit', .head (.enter hp hs ?_) hpass, hrest⟩
      rw [stepTargets_eq]
      exact List.mem_map_of_mem hexit

/-- A walk is the same without the edges that lead to no node just if it comes to no exit that is
blocked. -/
theorem walk_pruned_iff (path : List String) (start : Option String) :
    walk p path start = walk p.pruned path start ↔ ¬ BlockedFrom p (path, start) := by
  induction path, start using walk_induct p with
  | stop path start hw =>
    refine iff_of_true ?_ (not_blockedFrom_of_stop hw)
    rw [hw]
    match start with
    | none => exact walk_none.symm
    | some id =>
      have hstop := walk_eq_nil.mp hw
      exact ((walk_eq_nil (p := p.pruned)).mpr hstop).symm
  | enter path id s hp hs ih =>
    have hexits : ∀ exit, walk p (id :: path) (p.exitTarget id exit) =
        walk p.pruned (id :: path) (p.pruned.exitTarget id exit) ↔
          ¬ (p.Blocked (id :: path) id exit ∨
            BlockedFrom p (id :: path, p.exitTarget id exit)) := fun exit => by
      rw [walk_exit_eq_iff (by simp [hs]), ih, not_or]
    rw [walk_enter hp hs, walk_enter (p := p.pruned) hp hs, stepBlocks_eq_iff,
      blockedFrom_enter hp hs, Plan.step?_id hs]
    simp only [hexits, not_exists, not_and]

/-! ## Flows -/

/-- The first step is sought among the nodes that exist. -/
theorem firstStep?_pruned {trigger : Step} (ht : p.step? p.entry = some trigger) :
    firstStep? p.pruned = firstStep? p := by
  simp only [firstStep?, Plan.outgoing, Plan.pruned, List.filter_filter, List.find?_filter]
  congr 2
  funext e
  rw [show ({ p with edges := p.edges.filter p.connects } : Plan).step? e.target =
    p.step? e.target from rfl]
  by_cases hsource : e.source = p.entry
  · cases htarget : p.step? e.target <;> simp [Plan.connects, hsource, ht, htarget]
  · simp [hsource]

theorem joinIds_pruned (p : Plan) : joinIds p.pruned = joinIds p := rfl

/-- The generation of a flow comes to an exit that is blocked, in a sequence or at a join. -/
def Flow.Blocked (p : Plan) (f : Flow) : Prop :=
  (∃ place, f.Begins p place ∧ BlockedFrom p place) ∨
    ∃ c ∈ f.continuations, p.Blocked c.within c.join none

/-- Where the walks after all joins agree, so does what is built. -/
theorem build_congr {p q : Plan} (hj : joinIds q = joinIds p) (reached : List String)
    (pending : List Pending) : ∀ cs ws, build p reached pending = .ok (cs, ws) →
      (∀ c ∈ cs, walk p c.within (p.nextTarget c.join) =
        walk q c.within (q.nextTarget c.join)) →
      build q reached pending = .ok (cs, ws) := by
  induction reached, pending using build.induct p with
  | case1 reached => simp
  | case2 reached within block nesting rest hn =>
    intro cs ws h
    rw [build_tooDeep hn] at h
    cases h
  | case3 reached within nesting rest hn s f =>
    intro cs ws h
    rw [build_unreadable hn] at h
    cases h
  | case4 reached within nesting rest hn s hm c inner ih =>
    intro cs ws h hbody
    rw [show inner = innerVisits p within s.id nesting from rfl] at ih
    rw [build_fresh hn hm.1 hm.2] at h
    obtain ⟨⟨cs', ws'⟩, hin, h⟩ := bind_eq_ok.mp h
    cases h
    have hc : continuationOf q within s.id = continuationOf p within s.id := by
      rw [continuationOf, continuationOf]
      exact congrArg _ (hbody _ List.mem_cons_self).symm
    have hinner : innerVisits q within s.id nesting = innerVisits p within s.id nesting := by
      rw [innerVisits, hc, innerVisits]
    rw [build_fresh hn (hj ▸ hm.1) hm.2, hinner, hc,
      ih _ _ hin fun c hc => hbody c (List.mem_cons_of_mem _ hc)]
    rfl
  | case5 reached within nesting rest hn s hm ih =>
    intro cs ws h hbody
    rw [build_known hn hm] at h
    obtain ⟨⟨cs', ws'⟩, hrest, h⟩ := bind_eq_ok.mp h
    cases h
    rw [build_known hn (hj ▸ hm), ih _ _ hrest hbody]
    rfl
  | case6 reached within nesting rest hn block hu hb ih =>
    intro cs ws h hbody
    rw [build_pass hn hu fun s hs => (hb s hs).elim] at h
    obtain ⟨⟨cs', ws'⟩, hrest, h⟩ := bind_eq_ok.mp h
    cases h
    rw [build_pass hn hu fun s hs => (hb s hs).elim, ih _ _ hrest hbody]
    rfl

/-- What follows a join is the same without the edges that lead to no node, if the generation comes
to no exit there that is blocked. -/
theorem walk_join_eq_iff (hf : flowOf p = .ok f) {c : Continuation} (hc : c ∈ f.continuations) :
    walk p c.within (p.nextTarget c.join) = walk p.pruned c.within (p.pruned.nextTarget c.join) ↔
      ¬ p.Blocked c.within c.join none ∧ ¬ BlockedFrom p (c.place p) := by
  obtain ⟨s, hs⟩ := exists_step (Flow.joins_subset hf _ (List.mem_map_of_mem hc))
  have hid : (p.step? c.join).isSome := by simp [hs]
  rw [← walk_pruned_iff]
  exact walk_exit_eq_iff hid none

/-- The flow of a plan is the same without the edges that lead to no node just if the generation
comes to no exit that is blocked. -/
theorem flowOf_pruned_iff {trigger : Step} (ht : p.step? p.entry = some trigger)
    (hf : flowOf p = .ok f) : flowOf p.pruned = .ok f ↔ ¬ f.Blocked p := by
  have hmain : walk p [p.entry] (firstStep? p) =
      walk p.pruned [p.pruned.entry] (firstStep? p.pruned) ↔
        ¬ BlockedFrom p ([p.entry], firstStep? p) := by
    rw [firstStep?_pruned ht]
    exact walk_pruned_iff _ _
  constructor
  · rintro hf' (⟨place, rfl | ⟨c, hc, rfl⟩, hblocked⟩ | ⟨c, hc, hblocked⟩)
    · exact hmain.mp ((flowOf_eq_ok hf).1.symm.trans (flowOf_eq_ok hf').1) hblocked
    · have hbody := (Flow.body_eq hf hc).symm.trans (Flow.body_eq hf' hc)
      exact ((walk_join_eq_iff hf hc).mp hbody).2 hblocked
    · have hbody := (Flow.body_eq hf hc).symm.trans (Flow.body_eq hf' hc)
      exact ((walk_join_eq_iff hf hc).mp hbody).1 hblocked
  · intro hno
    have hwalk := hmain.mpr fun hb => hno (.inl ⟨_, .inl rfl, hb⟩)
    have hjoins : ∀ c ∈ f.continuations, walk p c.within (p.nextTarget c.join) =
        walk p.pruned c.within (p.pruned.nextTarget c.join) := fun c hc =>
      (walk_join_eq_iff hf hc).mpr ⟨fun hb => hno (.inr ⟨c, hc, hb⟩),
        fun hb => hno (.inl ⟨_, .inr ⟨c, hc, rfl⟩, hb⟩)⟩
    simp only [flowOf, bind_eq_ok] at hf ⊢
    obtain ⟨⟨cs, ws⟩, hbuild, hf⟩ := hf
    cases hf
    rw [← hwalk]
    exact ⟨(cs, ws), build_congr (joinIds_pruned p) _ _ _ _ hbuild hjoins, rfl⟩

/-- The handler of a plan is the same without the edges that lead to no node just if the generation
comes to no exit that is blocked. -/
theorem ofPlan_pruned_iff {h : Handler} (hp : ofPlan p = .ok h) :
    ofPlan p.pruned = .ok h ↔ ¬ h.flow.Blocked p := by
  obtain ⟨kind, ht, -, -, hf, -⟩ := ofPlan_eq_ok hp
  rw [← flowOf_pruned_iff ht hf]
  constructor
  · intro hp'
    obtain ⟨-, -, -, -, hf', -⟩ := ofPlan_eq_ok hp'
    exact hf'
  · intro hf'
    rw [← hp]
    unfold ofPlan
    rw [hf, hf']
    rfl

end Handler

/-! ## Graphs -/

namespace Graph

/-- The graph without the edges that lead from or to no node. -/
def pruned (g : Graph) : Graph := { g with edges := g.edges.filter g.connects }

variable (g : Graph)

@[simp] theorem connects_pruned : g.pruned.connects = g.connects := rfl

@[simp] theorem ids_pruned : g.pruned.ids = g.ids := rfl

theorem edges_pruned : g.pruned.edges = g.edges.filter g.connects := rfl

@[simp] theorem successors_pruned : g.pruned.successors = g.successors := by
  funext id
  simp only [successors, connects_pruned, edges_pruned, List.filter_filter, Bool.and_assoc,
    Bool.and_self]

@[simp] theorem predecessors_pruned : g.pruned.predecessors = g.predecessors := by
  funext id
  simp only [predecessors, connects_pruned, edges_pruned, List.filter_filter, Bool.and_assoc,
    Bool.and_self]

@[simp] theorem hasCycle_pruned : g.pruned.hasCycle = g.hasCycle := by simp [hasCycle]

@[simp] theorem depthBelow_pruned : g.pruned.depthBelow = g.depthBelow := by
  funext entry
  simp only [depthBelow, successors_pruned, ids_pruned]
  rfl

@[simp] theorem unreachable_pruned : g.pruned.unreachable = g.unreachable := by
  funext start
  simp [unreachable]

@[simp] theorem steps_pruned : g.pruned.steps = g.steps := by
  have hstep : g.pruned.step = g.step := by
    funext n
    simp [step]
  rw [steps, hstep]
  rfl

theorem isSome_step? {p : Plan} (hp : g.plan? = some p) (id : String) :
    (p.step? id).isSome = g.has id := by
  obtain ⟨entry, -, rfl⟩ := Option.map_eq_some_iff.mp hp
  rw [Bool.eq_iff_iff, has, Plan.step?, List.find?_isSome, List.any_eq_true]
  simp [steps, step]

/-- The analysis takes no notice of edges that lead to no node: without them the plan of a graph has
fewer edges, and all else stays as it is. -/
theorem plan?_pruned {p : Plan} (hp : g.plan? = some p) : g.pruned.plan? = some p.pruned := by
  have hconnects : p.connects = g.connects := by
    funext e
    rw [Plan.connects, connects, g.isSome_step? hp, g.isSome_step? hp]
  obtain ⟨entry, he, rfl⟩ := Option.map_eq_some_iff.mp hp
  have he' : g.pruned.entry? = some entry := he
  rw [plan?, he', Plan.pruned, hconnects]
  simp [edges_pruned]

theorem planWarnings_pruned (p : Plan) : planWarnings g.pruned p.pruned = planWarnings g p := by
  rw [planWarnings, unreachable_pruned]
  rfl

/-- Whether an edge as it is written is kept: its two ends exist. One that cannot be read is left
for the reader to report. -/
def keeps (v : Value) : Bool :=
  match Edge.read v with
  | .ok e => g.connects e
  | .error _ => true

theorem readItems_keeps {es : List Value} {edges : List Edge}
    (h : readItems Edge.read es = .ok edges) :
    readItems Edge.read (es.filter g.keeps) = .ok (edges.filter g.connects) := by
  induction es generalizing edges with
  | nil =>
    cases h
    rfl
  | cons v es ih =>
    rw [readItems] at h
    cases hv : Edge.read v with
    | error report => simp [hv] at h
    | ok e =>
      rw [hv] at h
      dsimp only at h
      cases hrest : readItems Edge.read es with
      | error e' => simp [hrest, Except.map] at h
      | ok rest =>
        rw [hrest] at h
        cases h
        have hkeeps : g.keeps v = g.connects e := by simp [keeps, hv]
        by_cases hc : g.connects e = true
        · rw [List.filter_cons_of_pos (hkeeps.trans hc), List.filter_cons_of_pos hc, readItems, hv]
          dsimp only
          rw [ih hrest]
          rfl
        · rw [List.filter_cons_of_neg (hkeeps ▸ hc), List.filter_cons_of_neg hc]
          exact ih hrest

/-- Taking the dangling edges from the list takes them from the graph. -/
theorem read_keeps {ns es : List Value} (h : read (.list ns) (.list es) = .ok g) :
    read (.list ns) (.list (es.filter g.keeps)) = .ok g.pruned := by
  rw [read_list] at h
  obtain ⟨nodes, hnodes, h⟩ := bind_eq_ok.mp h
  obtain ⟨edges, hedges, h⟩ := bind_eq_ok.mp h
  cases h
  rw [read_list]
  exact bind_eq_ok.mpr ⟨nodes, hnodes, bind_eq_ok.mpr ⟨_, readItems_keeps _ hedges, rfl⟩⟩

end Graph

/-! ## Compilations -/

theorem mapError_eq_ok {ε ε' α : Type} {x : Except ε α} {f : ε → ε'} {a : α} :
    x.mapError f = .ok a ↔ x = .ok a := by
  cases x <;> simp [Except.mapError]

theorem planOf_eq_ok {g : Graph} {p : Plan} : planOf g = .ok p ↔ g.plan? = some p := by
  unfold planOf
  cases g.plan? <;> simp

/-- What a workflow that compiles is compiled to. -/
theorem compileHandler_eq_ok {nodes edges : Value} {h : Handler} {c : Compiled} :
    compileHandler nodes edges = .ok (h, c) ↔ nodes.truthy = true ∧ ∃ g p,
      Graph.read nodes edges = .ok g ∧ g.plan? = some p ∧ ofPlan p = .ok h ∧
        c = { code := h.code, usedKinds := h.kinds, warnings := planWarnings g p,
              measures := { nodeCount := itemCount nodes, edgeCount := itemCount edges,
                            hasCycle := p.hasCycle, depth := p.depth } } := by
  unfold compileHandler
  by_cases hn : nodes.truthy = true
  · rw [if_neg (by simp [hn])]
    simp only [bind_eq_ok, readGraph, handlerOf, mapError_eq_ok, planOf_eq_ok, hn, true_and]
    constructor
    · rintro ⟨g, hg, p, hp, h', hh, he⟩
      cases he
      exact ⟨g, p, hg, hp, hh, rfl⟩
    · rintro ⟨g, p, hg, hp, hh, rfl⟩
      exact ⟨g, hg, p, hp, h, hh, rfl⟩
  · rw [if_pos (by simp [hn])]
    exact iff_of_false (by rintro ⟨⟩) fun h => hn h.1

theorem compile_eq_ok {nodes edges : Value} {c : Compiled} :
    compile nodes edges = .ok c ↔ ∃ h, compileHandler nodes edges = .ok (h, c) := by
  unfold compile
  cases compileHandler nodes edges with
  | error e => exact ⟨nofun, nofun⟩
  | ok r =>
    obtain ⟨h, c'⟩ := r
    simp [Except.map]

/-- **Edges that lead to no node change a handler where they stand first.** Without them the
warnings and the shape of the workflow stay as they are. The handler, its code and the kinds of its
actions stay so too just if the generation comes to no exit whose first edge leads to no node while
a later one leads to a node that is not on the path. -/
theorem dangling_edges_matter_iff {ns es : List Value} {h : Handler} {c : Compiled}
    (hc : compileHandler (.list ns) (.list es) = .ok (h, c)) :
    ∃ g p, Graph.read (.list ns) (.list es) = .ok g ∧ g.plan? = some p ∧
      (∀ c', compile (.list ns) (.list (es.filter g.keeps)) = .ok c' → c'.warnings = c.warnings ∧
        c'.measures.hasCycle = c.measures.hasCycle ∧ c'.measures.depth = c.measures.depth) ∧
      ((∃ c', compileHandler (.list ns) (.list (es.filter g.keeps)) = .ok (h, c') ∧
        c'.code = c.code ∧ c'.usedKinds = c.usedKinds) ↔ ¬ h.flow.Blocked p) := by
  obtain ⟨hn, g, p, hg, hp, hh, rfl⟩ := compileHandler_eq_ok.mp hc
  have hg' := g.read_keeps hg
  have hp' := g.plan?_pruned hp
  refine ⟨g, p, hg, hp, fun c' hc' => ?_, ?_⟩
  · obtain ⟨h', hc'⟩ := compile_eq_ok.mp hc'
    obtain ⟨-, g', p', hg'', hp'', -, rfl⟩ := compileHandler_eq_ok.mp hc'
    cases hg'.symm.trans hg''
    cases hp'.symm.trans hp''
    exact ⟨g.planWarnings_pruned p, rfl, rfl⟩
  · rw [← ofPlan_pruned_iff hh]
    constructor
    · rintro ⟨c', hc', -⟩
      obtain ⟨-, g', p', hg'', hp'', hh', -⟩ := compileHandler_eq_ok.mp hc'
      cases hg'.symm.trans hg''
      cases hp'.symm.trans hp''
      exact hh'
    · intro hh'
      exact ⟨_, compileHandler_eq_ok.mpr ⟨hn, g.pruned, p.pruned, hg', hp', hh', rfl⟩, rfl, rfl⟩

/-- A node as it is written. -/
def writtenNode (id kind : String) : Value := Value.ofFields [("id", .str id), ("type", .str kind)]

/-- An edge as it is written. -/
def writtenEdge (source target : String) : Value :=
  Value.ofFields [("source", .str source), ("target", .str target)]

/-- Two actions, one after the other. -/
def strayNodes : List Value :=
  [writtenNode "t" "trigger-manual", writtenNode "a" "first", writtenNode "b" "second"]

/-- An edge to no node leaves the first action before the edge to the second. -/
def strayEdges : List Value :=
  [writtenEdge "t" "a", writtenEdge "a" "nowhere", writtenEdge "a" "b"]

/-- The graph of these nodes and edges. -/
def strayGraph : Graph where
  nodes := [{ id := "t", kind := "trigger-manual" }, { id := "a", kind := "first" },
    { id := "b", kind := "second" }]
  edges := [{ source := "t", target := "a" }, { source := "a", target := "nowhere" },
    { source := "a", target := "b" }]

theorem read_stray : Graph.read (.list strayNodes) (.list strayEdges) = .ok strayGraph := rfl

theorem exists_compileHandler {n : Value} {ns es : List Value} {g : Graph} {kinds : List String}
    (hg : Graph.read (.list (n :: ns)) (.list es) = .ok g)
    (hk : (g.plan?.map fun p => (ofPlan p).toOption.map (·.kinds)) = some (some kinds)) :
    ∃ h c, compileHandler (.list (n :: ns)) (.list es) = .ok (h, c) ∧ c.usedKinds = kinds := by
  obtain ⟨p, hp, hk⟩ := Option.map_eq_some_iff.mp hk
  cases hh : ofPlan p with
  | error e => simp [hh, Except.toOption] at hk
  | ok h =>
    rw [hh] at hk
    exact ⟨h, _, compileHandler_eq_ok.mpr ⟨rfl, g, p, hg, hp, hh, rfl⟩, Option.some.inj hk⟩

theorem exists_compile_stray : ∃ h c,
    compileHandler (.list strayNodes) (.list strayEdges) = .ok (h, c) ∧ c.usedKinds = ["first"] :=
  exists_compileHandler read_stray (by cbv)

theorem exists_compile_kept : ∃ h c,
    compileHandler (.list strayNodes) (.list (strayEdges.filter strayGraph.keeps)) = .ok (h, c) ∧
      c.usedKinds = ["first", "second"] :=
  exists_compileHandler (strayGraph.read_keeps read_stray) (by cbv)

/-- Without the edge to no node, the handler goes on to the second action. -/
theorem stray_kinds_change : ∃ g c c', Graph.read (.list strayNodes) (.list strayEdges) = .ok g ∧
    compile (.list strayNodes) (.list strayEdges) = .ok c ∧
    compile (.list strayNodes) (.list (strayEdges.filter g.keeps)) = .ok c' ∧
    c.usedKinds = ["first"] ∧ c'.usedKinds = ["first", "second"] := by
  obtain ⟨h, c, hc, hkinds⟩ := exists_compile_stray
  obtain ⟨h', c', hc', hkinds'⟩ := exists_compile_kept
  exact ⟨strayGraph, c, c', read_stray, compile_eq_ok.mpr ⟨h, hc⟩, compile_eq_ok.mpr ⟨h', hc'⟩,
    hkinds, hkinds'⟩

/-- The generation comes to the exit of the first action, which is blocked. -/
theorem stray_blocked : ∃ h c p, compileHandler (.list strayNodes) (.list strayEdges) = .ok (h, c) ∧
    strayGraph.plan? = some p ∧ h.flow.Blocked p := by
  obtain ⟨h, c, hc, hkinds⟩ := exists_compile_stray
  obtain ⟨h', c', hc', hkinds'⟩ := exists_compile_kept
  obtain ⟨g, p, hg, hp, -, hsame⟩ := dangling_edges_matter_iff hc
  cases read_stray.symm.trans hg
  refine ⟨h, c, p, hc, hp, ?_⟩
  by_contra hno
  obtain ⟨c'', hc'', -, hused⟩ := hsame.mpr hno
  cases hc'.symm.trans hc''
  simp [hkinds, hkinds'] at hused

end Workflow
