/-
The order of edges matters only among those that leave one node.

Whatever asks for edges asks for those that leave a node, with one exception: the
inputs of a step stand in the order of all edges. So where two lists of edges
agree source by source (`SameBySource`), the analysis of the graph is the same,
the walks of the generation are the same (`walk_rewired`), and the steps differ
in their inputs alone, which no handler is made from (`Graph.handler_rewired`).
-/
import Workflow.Proofs.Reconfiguration

namespace Workflow

open Handler

/-! ## Edges by their sources -/

/-- Two lists hold the same edges, and those that leave one node in the same order. -/
def SameBySource (edges edges' : List Edge) : Prop :=
  ∀ id, edges.filter (·.source = id) = edges'.filter (·.source = id)

section

variable {edges edges' : List Edge}

theorem SameBySource.filter (h : SameBySource edges edges') (id : String) (P : Edge → Bool) :
    edges.filter (fun e => e.source = id && P e) =
      edges'.filter (fun e => e.source = id && P e) := by
  have hfilter := congrArg (List.filter P) (h id)
  simpa only [List.filter_filter, Bool.and_comm] using hfilter

theorem SameBySource.find? (h : SameBySource edges edges') (id : String) (P : Edge → Bool) :
    edges.find? (fun e => e.source = id && P e) = edges'.find? (fun e => e.source = id && P e) := by
  rw [← List.head?_filter, ← List.head?_filter, h.filter]

theorem SameBySource.perm (h : SameBySource edges edges') : edges.Perm edges' := by
  refine List.perm_iff_count.mpr fun e => ?_
  have hcount := congrArg (List.count e) (h e.source)
  rwa [List.count_filter (by simp), List.count_filter (by simp)] at hcount

/-- Only the sources that occur matter. -/
theorem sameBySource_iff : SameBySource edges edges' ↔ ∀ e ∈ edges ++ edges',
    edges.filter (·.source = e.source) = edges'.filter (·.source = e.source) := by
  refine ⟨fun h e _ => h e.source, fun h id => ?_⟩
  by_cases hid : ∃ e ∈ edges ++ edges', e.source = id
  · obtain ⟨e, he, rfl⟩ := hid
    exact h e he
  · have hnone : ∀ l : List Edge, (∀ e ∈ l, e ∈ edges ++ edges') → l.filter (·.source = id) = [] :=
      fun l hl => List.filter_eq_nil_iff.mpr fun e he hs => hid ⟨e, hl e he, by simpa using hs⟩
    rw [hnone edges fun e => List.mem_append_left _, hnone edges' fun e => List.mem_append_right _]

instance : Decidable (SameBySource edges edges') := decidable_of_iff _ sameBySource_iff.symm

end

/-! ## Plans -/

/-- A plan with other edges. -/
def Plan.rewired (p : Plan) (edges : List Edge) : Plan := { p with edges }

namespace Handler

variable {p : Plan} {edges : List Edge} (h : SameBySource p.edges edges)

include h

theorem exitTarget_rewired (id : String) (exit : Option String) :
    (p.rewired edges).exitTarget id exit = p.exitTarget id exit := by
  cases exit with
  | none =>
    have hfirst := h.find? id fun _ => true
    simp only [Bool.and_true] at hfirst
    exact (congrArg (Option.map (·.target)) hfirst).symm
  | some port => exact (congrArg (Option.map (·.target)) (h.find? id _)).symm

theorem walk_rewired (path : List String) (start : Option String) :
    walk (p.rewired edges) path start = walk p path start := by
  induction path, start using walk_induct p with
  | stop path start hw =>
    rw [hw]
    cases start with
    | none => exact walk_none
    | some id =>
      rcases walk_eq_nil.mp hw with hm | hs
      · exact walk_mem hm
      · exact walk_missing hs
  | enter path id s hp hs ih =>
    have hs' : (p.rewired edges).step? id = some s := hs
    rw [walk_enter hp hs, walk_enter hp hs', stepBlocks_eq_iff]
    intro exit _
    rw [exitTarget_rewired h, ih]

theorem continuationOf_rewired (within : List String) (join : String) :
    continuationOf (p.rewired edges) within join = continuationOf p within join := by
  have hnext : (p.rewired edges).nextTarget join = p.nextTarget join :=
    exitTarget_rewired h join none
  simp only [continuationOf, walk_rewired h, hnext]

theorem build_rewired (reached : List String) (pending : List Pending) :
    build (p.rewired edges) reached pending = build p reached pending := by
  have hinner : ∀ within join nesting,
      innerVisits (p.rewired edges) within join nesting = innerVisits p within join nesting := by
    intro within join nesting
    rw [innerVisits, continuationOf_rewired h, innerVisits]
  have hjoins : joinIds (p.rewired edges) = joinIds p := rfl
  induction reached, pending using build.induct p with
  | case1 reached => rw [build, build]
  | case2 reached within block nesting rest hn => rw [build_tooDeep hn, build_tooDeep hn]
  | case3 reached within nesting rest hn s fault => rw [build_unreadable hn, build_unreadable hn]
  | case4 reached within nesting rest hn s hm c inner ih =>
    have hm' : s.id ∈ joinIds (p.rewired edges) := hm.1
    rw [build_fresh hn hm.1 hm.2, build_fresh hn hm' hm.2, hinner, continuationOf_rewired h]
    exact congrArg (· >>= _) ih
  | case5 reached within nesting rest hn s hm ih =>
    rw [build_known hn hm, build_known hn (hjoins ▸ hm), ih]
  | case6 reached within nesting rest hn block hu hb ih =>
    have hj : ∀ {q : Plan} s, block = .join s → s.id ∈ joinIds q → s.id ∈ reached :=
      fun s hs => (hb s hs).elim
    rw [build_pass hn hu hj, build_pass hn hu hj, ih]

theorem flowOf_rewired : flowOf (p.rewired edges) = flowOf p := by
  have hfirst : firstStep? (p.rewired edges) = firstStep? p := by
    have hout : (p.rewired edges).outgoing p.entry = p.outgoing p.entry := (h p.entry).symm
    show ((p.rewired edges).outgoing p.entry |>.find? _).map _ = _
    rw [hout]
    rfl
  have hentry : (p.rewired edges).entry = p.entry := rfl
  simp only [flowOf, hfirst, hentry, walk_rewired h, build_rewired h]

/-- The handler of a plan depends on the order of the edges only among those that leave one node. -/
theorem ofPlan_rewired : ofPlan (p.rewired edges) = ofPlan p := by
  unfold ofPlan
  rw [flowOf_rewired h]
  rfl

end Handler

/-! ## Graphs -/

namespace Graph

/-- A graph with other edges. -/
def rewired (g : Graph) (edges : List Edge) : Graph := { g with edges }

/-- A step with the inputs that a graph gives it. -/
def reconnect (g : Graph) (s : Step) : Step := { s with inputs := g.predecessors s.id }

theorem sameShape_reconnect (g : Graph) (p : Plan) : p.SameShape g.reconnect where
  id _ := rfl
  kind _ := rfl
  role _ := rfl
  secrets _ := rfl
  form _ _ _ := rfl

variable {g : Graph} {edges : List Edge} (h : SameBySource g.edges edges)

include h

theorem successors_rewired : (g.rewired edges).successors = g.successors := by
  funext id
  exact congrArg (List.map (·.target)) (h.filter id g.connects).symm

theorem unreachable_rewired : (g.rewired edges).unreachable = g.unreachable := by
  funext start
  simp only [unreachable, successors_rewired h]
  rfl

/-- The plan of a graph is the same but for the order of the edges and of the inputs of steps. -/
theorem plan?_rewired : (g.rewired edges).plan? =
    g.plan?.map fun p => (p.mapSteps (g.rewired edges).reconnect).rewired edges := by
  have hsteps : (g.rewired edges).steps = g.steps.map (g.rewired edges).reconnect := by
    simp only [steps, List.map_map]
    refine List.map_congr_left fun n _ => ?_
    simp only [step, successors_rewired h]
    rfl
  have hcycle : (g.rewired edges).hasCycle = g.hasCycle := by
    rw [hasCycle, successors_rewired h]
    rfl
  have hdepth : ∀ entry, (g.rewired edges).depthBelow entry = g.depthBelow entry := by
    intro entry
    simp only [depthBelow, successors_rewired h]
    rfl
  simp only [plan?, hsteps, hcycle, hdepth, Option.map_map]
  rfl

theorem planWarnings_rewired (p : Plan) : planWarnings (g.rewired edges)
    ((p.mapSteps (g.rewired edges).reconnect).rewired edges) = planWarnings g p := by
  have hsteps : (p.steps.map (g.rewired edges).reconnect).filterMap stepWarning =
      p.steps.filterMap stepWarning := by
    rw [List.filterMap_map]
    rfl
  rw [planWarnings, planWarnings, unreachable_rewired h]
  exact congrArg (_ ++ ·) hsteps

end Graph

/-! ## Compiled workflows -/

theorem Graph.length_readItems {α : Type} {read : Value → Except String α} {vs : List Value}
    {as : List α} (h : Graph.readItems read vs = .ok as) : as.length = vs.length := by
  induction vs generalizing as with
  | nil =>
    cases h
    rfl
  | cons v rest ih =>
    rw [Graph.readItems] at h
    split at h
    · cases h
    · cases hr : Graph.readItems read rest with
      | error e => simp [hr, Except.map] at h
      | ok as' =>
        rw [hr] at h
        cases h
        simp [ih hr]

/-- What is read where the edges are well-formed: the nodes decide. -/
theorem Graph.read_of_edges (nodes : Value) {es : List Value} {edges : List Edge}
    (he : Graph.readItems Edge.read es = .ok edges) : Graph.read nodes (.list es) =
      (do Graph.readItems Node.read (← Graph.sequence nodes)).map (Graph.make · edges) := by
  have hseq : Graph.sequence (.list es) = .ok es := rfl
  simp only [Graph.read, hseq]
  cases Graph.sequence nodes with
  | error e => rfl
  | ok vs =>
    simp only [bind, Except.bind, he]
    cases Graph.readItems Node.read vs <;> rfl

/-- The handler of a graph is the same but for the inputs of its steps, and its text is the same. -/
theorem Graph.handler_rewired {g : Graph} {edges : List Edge} (h : SameBySource g.edges edges)
    {p : Plan} (hp : g.plan? = some p) :
    (ofPlan ((p.mapSteps (g.rewired edges).reconnect).rewired edges)).map
        (fun hd => (hd.code, hd.kinds)) = (ofPlan p).map fun hd => (hd.code, hd.kinds) := by
  have hedges : p.edges = g.edges := by
    obtain ⟨entry, -, rfl⟩ := Option.map_eq_some_iff.mp hp
    rfl
  have hshape := (g.rewired edges).sameShape_reconnect p
  have hmapped : ofPlan (p.mapSteps (g.rewired edges).reconnect) =
      (ofPlan p).map fun hd => hd.mapSteps (g.rewired edges).reconnect (id hd.guard) := by
    refine ofPlan_mapSteps hshape fun s kind _ _ => ?_
    show Guard.ofStep kind s = _
    cases Guard.ofStep kind s <;> rfl
  have hsame : SameBySource (p.mapSteps (g.rewired edges).reconnect).edges edges := hedges ▸ h
  rw [ofPlan_rewired hsame, hmapped]
  cases hh : ofPlan p with
  | error e => rfl
  | ok hd =>
    have hcode : (hd.mapSteps (g.rewired edges).reconnect hd.guard).code = hd.code := by
      refine code_mapSteps hshape hh fun b _ => ?_
      cases b <;> trivial
    exact congrArg (fun code => Except.ok (code, hd.kinds)) hcode

/-- What a graph compiles to, given how many nodes and edges were written. Of the handler only the
text and the kinds are kept. -/
def Graph.compiled (g : Graph) (nodeCount edgeCount : Nat) : Except CompileError Compiled := do
  let p ← planOf g
  let kept ← (handlerOf p).map fun h => (h.code, h.kinds)
  return {
    code := kept.1, usedKinds := kept.2, warnings := planWarnings g p
    measures := { nodeCount, edgeCount, hasCycle := p.hasCycle, depth := p.depth } }

theorem compile_eq (nodes edges : Value) : compile nodes edges =
    if nodes.truthy then
      (readGraph nodes edges).bind fun g => g.compiled (itemCount nodes) (itemCount edges)
    else .error .noNodes := by
  unfold compile compileHandler
  by_cases hn : nodes.truthy = true
  · simp only [hn, Bool.not_true, if_true, Graph.compiled]
    cases readGraph nodes edges with
    | error e => rfl
    | ok g =>
      simp only [bind, Except.bind]
      cases planOf g with
      | error e => rfl
      | ok p =>
        dsimp only
        cases handlerOf p <;> rfl
  · simp only [hn]
    rfl

theorem map_handlerOf_congr {α : Type} {kept : Handler → α} {p q : Plan}
    (h : (ofPlan q).map kept = (ofPlan p).map kept) :
    (handlerOf q).map kept = (handlerOf p).map kept := by
  have hmap : ∀ p, (handlerOf p).map kept = ((ofPlan p).map kept).mapError _ := fun p => by
    unfold handlerOf
    cases ofPlan p <;> rfl
  rw [hmap, hmap, h]

theorem Graph.compiled_rewired {g : Graph} {edges : List Edge} (h : SameBySource g.edges edges)
    (nodeCount edgeCount : Nat) :
    (g.rewired edges).compiled nodeCount edgeCount = g.compiled nodeCount edgeCount := by
  unfold Graph.compiled planOf
  rw [Graph.plan?_rewired h]
  cases hp : g.plan? with
  | none => simp only [Option.map_none, bind, Except.bind]
  | some p =>
    have hkept := map_handlerOf_congr (Graph.handler_rewired h hp)
    have hwarnings := Graph.planWarnings_rewired h p
    have hshape : ((p.mapSteps (g.rewired edges).reconnect).rewired edges).hasCycle = p.hasCycle ∧
        ((p.mapSteps (g.rewired edges).reconnect).rewired edges).depth = p.depth := ⟨rfl, rfl⟩
    rw [Option.map_some]
    generalize (p.mapSteps (g.rewired edges).reconnect).rewired edges = q at hkept hwarnings hshape
    simp only [bind, Except.bind, hkept, hwarnings, hshape]

/-- **The order of edges matters only among those that leave one node.** Where two lists of edges
are well-formed and agree on the edges that leave each node, in order, the same nodes with either of
them compile to the same text, kinds, warnings and measures, or fail in the same way. -/
theorem compile_interleaved (nodes : Value) {es es' : List Value} {edges edges' : List Edge}
    (he : Graph.readItems Edge.read es = .ok edges)
    (he' : Graph.readItems Edge.read es' = .ok edges') (h : SameBySource edges edges') :
    compile nodes (.list es) = compile nodes (.list es') := by
  have hlength : es.length = es'.length := by
    rw [← Graph.length_readItems he, ← Graph.length_readItems he', h.perm.length_eq]
  have hcount : itemCount (.list es) = itemCount (.list es') := hlength
  rw [compile_eq, compile_eq, readGraph, readGraph, Graph.read_of_edges nodes he,
    Graph.read_of_edges nodes he', hcount]
  cases (do Graph.readItems Node.read (← Graph.sequence nodes)) with
  | error e => rfl
  | ok ns =>
    have hsame : SameBySource (Graph.make ns edges).edges edges' := h
    have hcompiled := Graph.compiled_rewired hsame (itemCount nodes) (itemCount (.list es'))
    exact congrArg (fun c => if nodes.truthy then c else .error .noNodes) hcompiled.symm

/-- An edge as it is written that leaves a node by a port. -/
def writtenExit (source port target : String) : Value :=
  Value.ofFields [("source", .str source), ("sourceHandle", .str port), ("target", .str target)]

/-- A branch whose arms meet in a join. -/
def meetingNodes : List Value :=
  [writtenNode "t" "trigger-manual", writtenNode "k" "if", writtenNode "a" "first",
    writtenNode "b" "second", writtenNode "m" "merge"]

def meetingEdges : List Value :=
  [writtenEdge "t" "k", writtenExit "k" "true" "a", writtenExit "k" "false" "b",
    writtenEdge "a" "m", writtenEdge "b" "m"]

/-- The same edges, with those that enter the join the other way round. -/
def crossedEdges : List Value :=
  [writtenEdge "b" "m", writtenExit "k" "true" "a", writtenEdge "a" "m", writtenEdge "t" "k",
    writtenExit "k" "false" "b"]

theorem meeting_interleaved : ∃ edges edges', Graph.readItems Edge.read meetingEdges = .ok edges ∧
    Graph.readItems Edge.read crossedEdges = .ok edges' ∧ SameBySource edges edges' ∧
    edges.filter (·.target = "m") ≠ edges'.filter (·.target = "m") ∧
    compile (.list meetingNodes) (.list meetingEdges) =
      compile (.list meetingNodes) (.list crossedEdges) := by
  refine ⟨_, _, rfl, rfl, by decide, by decide, compile_interleaved _ rfl rfl (by decide)⟩

end Workflow
