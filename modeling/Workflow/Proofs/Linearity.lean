/-
Joins keep the text of a handler small (`joined_once`): where ways part and meet
in order, each action is written once and there are no more blocks than edges.

Without joins a node is written once for each way that leads to it. The count
goes along the edges instead: a block is entered by an edge that an earlier one
follows (`Flow.ids_subperm`), so that a node is written at most as often as the
edges to it are followed, and an edge is followed at most as often as its source
is written (`Flow.count_edges_le`). A node that only one edge enters thus takes
its bound from the source of that edge, back to the entry or to a join; and what
follows a join is walked once, however many ways lead there.
-/
import Workflow.Proofs.Interpretation

namespace Workflow

open Relation

/-- The cases of a selection. -/
def Step.Form.cases : Step.Form → List String
  | .select cases => cases
  | _ => []

namespace Plan

/-- The first edge that leaves a node. -/
def nextEdge? (p : Plan) (id : String) : Option Edge := p.edges.find? (·.source = id)

/-- The first edge that leaves a node by a port. -/
def portEdge? (p : Plan) (id port : String) : Option Edge :=
  p.edges.find? fun e => e.source = id && e.sourcePort = some port

/-- Ways part and meet in order: a node that can be reached from the entry is entered by one edge
at most unless it is a join, and a selection has a port of its own for each case. -/
structure Structured (p : Plan) : Prop where
  entered : ∀ id s, ReflTransGen p.Leads p.entry id → p.step? id = some s → s.form ≠ .join →
    (p.edges.filter (·.target = id)).length ≤ 1
  cases : ∀ id s, ReflTransGen p.Leads p.entry id → p.step? id = some s →
    s.form.cases.Nodup ∧ "default" ∉ s.form.cases

variable {p : Plan} {id port : String} {e : Edge}

theorem nextEdge?_eq_some (h : p.nextEdge? id = some e) : e ∈ p.edges ∧ e.source = id :=
  ⟨List.mem_of_find?_eq_some h, by simpa using List.find?_some h⟩

theorem portEdge?_eq_some (h : p.portEdge? id port = some e) :
    e ∈ p.edges ∧ e.source = id ∧ e.sourcePort = some port := by
  have hfound := List.find?_some h
  simp only [Bool.and_eq_true, decide_eq_true_eq] at hfound
  exact ⟨List.mem_of_find?_eq_some h, hfound⟩

/-- In a graph without cycles, what holds of a node whenever it holds of all nodes that lead to it
holds of every node: with finitely many steps, no way goes back for ever. -/
theorem AcyclicFrom.induct_back (h : p.AcyclicFrom p.entry) {motive : String → Prop}
    (step : ∀ n, (∀ m, ReflTransGen p.Leads p.entry m → p.Leads m n → motive m) → motive n)
    (n : String) : motive n := by
  let Before (a b : { id // id ∈ Handler.stepIds p }) : Prop :=
    ReflTransGen p.Leads p.entry a ∧ TransGen p.Leads a b
  have : IsTrans _ Before := ⟨fun _ _ _ hab hbc => ⟨hab.1, hab.2.trans hbc.2⟩⟩
  have : Std.Irrefl Before := ⟨fun a ha => h a ha.1 ha.2⟩
  have hwf : WellFounded Before := Finite.wellFounded_of_trans_of_irrefl Before
  have hmem : ∀ {m n}, p.Leads m n → m ∈ Handler.stepIds p := fun hm => by
    obtain ⟨s, hs⟩ := Option.isSome_iff_exists.mp hm.1
    exact Handler.mem_stepIds hs
  have hsteps : ∀ a : { id // id ∈ Handler.stepIds p }, motive a := fun a => by
    induction a using hwf.induction with
    | h a ih => exact step a fun m hm hlead => ih ⟨m, hmem hlead⟩ ⟨hm, .single hlead⟩
  exact step n fun m _ hlead => hsteps ⟨m, hmem hlead⟩

end Plan

namespace Handler

/-! ## The edges that are followed -/

/-- The edges that a walk follows from a step. -/
def followed (p : Plan) (s : Step) : List Edge :=
  match s.form with
  | .trigger | .unsupported | .action => (p.nextEdge? s.id).toList
  | .branch => ["true", "false"].filterMap (p.portEdge? s.id)
  | .subject => ["default"].filterMap (p.portEdge? s.id)
  | .select cases => (cases ++ ["default"]).filterMap (p.portEdge? s.id)
  | .loop => ["body", "done"].filterMap (p.portEdge? s.id)
  | .join | .unreadable _ => []

variable {p : Plan} {s : Step} {e : Edge}

theorem toList_nextTarget (p : Plan) (id : String) :
    (p.nextTarget id).toList = (p.nextEdge? id).toList.map (·.target) := by
  rw [Plan.nextTarget, Plan.nextEdge?, Option.toList_map]

theorem flatMap_portTarget (p : Plan) (id : String) (ports : List String) :
    ports.flatMap (fun port => (p.portTarget id port).toList) =
      (ports.filterMap (p.portEdge? id)).map (·.target) := by
  rw [List.filterMap_eq_flatMap_toList, List.map_flatMap]
  simp [Plan.portTarget, Plan.portEdge?, Option.toList_map]

theorem targets_followed (p : Plan) (s : Step) :
    (stepTargets p s).flatMap Option.toList = (followed p s).map (·.target) := by
  unfold stepTargets followed
  cases s.form with
  | trigger | unsupported | action => simp [toList_nextTarget]
  | branch | subject | loop => simp [← flatMap_portTarget]
  | select cases => simp [← flatMap_portTarget, List.flatMap_map]
  | join | unreadable => rfl

theorem mem_followed (h : e ∈ followed p s) : e ∈ p.edges ∧ e.source = s.id := by
  have hport : ∀ ports : List String, e ∈ ports.filterMap (p.portEdge? s.id) →
      e ∈ p.edges ∧ e.source = s.id := fun ports he => by
    obtain ⟨port, -, hport⟩ := List.mem_filterMap.mp he
    exact ⟨(Plan.portEdge?_eq_some hport).1, (Plan.portEdge?_eq_some hport).2.1⟩
  unfold followed at h
  split at h
  case h_1 | h_2 | h_3 => exact Plan.nextEdge?_eq_some (Option.mem_toList.mp h)
  case h_4 | h_5 | h_6 | h_7 => exact hport _ h
  case h_8 | h_9 => simp at h

theorem followed_nodup (hcases : s.form.cases.Nodup ∧ "default" ∉ s.form.cases) :
    (followed p s).Nodup := by
  have hports : ∀ ports : List String, ports.Nodup →
      (ports.filterMap (p.portEdge? s.id)).Nodup := fun ports hn => by
    refine List.Nodup.filterMap (fun a a' e ha ha' => ?_) hn
    have hport := (Plan.portEdge?_eq_some ha).2.2.symm.trans (Plan.portEdge?_eq_some ha').2.2
    exact Option.some.inj hport
  unfold followed
  cases hf : s.form with
  | trigger | unsupported | action => cases p.nextEdge? s.id <;> simp
  | branch | subject | loop => exact hports _ (by decide)
  | select cases =>
    rw [hf] at hcases
    obtain ⟨hn, hd⟩ := hcases
    exact hports _ (List.nodup_append.mpr ⟨hn, List.nodup_singleton _, by
      rintro c hc _ hdef rfl
      exact hd (List.mem_singleton.mp hdef ▸ hc)⟩)
  | join | unreadable => exact List.nodup_nil

/-! ## The steps of a sequence -/

/-- The steps of all blocks of a sequence, in the order in which they are written. -/
def stepsIn (bs : List Block) : List Step := (blocksIn bs).map Block.step

theorem stepsIn_cons (b : Block) (rest : List Block) :
    stepsIn (b :: rest) = stepsIn [b] ++ stepsIn rest := by
  rw [stepsIn, blocksIn_cons, List.map_append]
  rfl

/-- A step comes first among the steps of its blocks; those of what follows come after it. -/
theorem stepsIn_stepBlocks (p : Plan) (s : Step) (next : Option String → List Block) :
    stepsIn (stepBlocks p s next) = s :: (stepTargets p s).flatMap fun t => stepsIn (next t) := by
  unfold stepBlocks stepTargets
  cases s.form with
  | trigger | unsupported | action | subject =>
    rw [stepsIn_cons, List.flatMap_singleton]
    rfl
  | branch => simp [stepsIn, Block.step]
  | select cases => simp [stepsIn, Block.step, List.map_flatMap, List.flatMap_map]
  | loop =>
    rw [stepsIn_cons]
    simp [stepsIn, Block.step]
  | join | unreadable => rfl

theorem subperm_flatMap {α β : Type} {f g : α → List β} :
    ∀ items : List α, (∀ a ∈ items, (f a).Subperm (g a)) →
      (items.flatMap f).Subperm (items.flatMap g)
  | [], _ => .refl _
  | a :: items, h => by
    rw [List.flatMap_cons, List.flatMap_cons]
    exact (h a List.mem_cons_self).append
      (subperm_flatMap items fun b hb => h b (List.mem_cons_of_mem _ hb))

/-- Every step of a walk but the first is entered by an edge that an earlier one follows. -/
theorem ids_subperm_walk (path : List String) (start : Option String) :
    ((stepsIn (walk p path start)).map (·.id)).Subperm (start.toList ++
      ((stepsIn (walk p path start)).flatMap (followed p)).map (·.target)) := by
  induction path, start using walk_induct p with
  | stop path start hw => simp [hw, stepsIn]
  | enter path id s hp hs ih =>
    have hnext := subperm_flatMap (stepTargets p s) fun t _ => ih t
    have hsplit := List.flatMap_append_perm (stepTargets p s) Option.toList fun t =>
      ((stepsIn (walk p (id :: path) t)).flatMap (followed p)).map (·.target)
    rw [walk_enter hp hs, stepsIn_stepBlocks, Option.toList_some, List.singleton_append,
      List.map_cons, List.map_flatMap, List.flatMap_cons, List.flatMap_assoc, List.map_append,
      List.map_flatMap, ← targets_followed, Plan.step?_id hs, List.subperm_cons]
    exact hnext.trans hsplit.symm.subperm

/-- How often an item is among lists without repetitions is at most how many of them can hold it. -/
theorem count_flatMap_le {α β : Type} [DecidableEq β] {items : List α} {f : α → List β} {b : β}
    {P : α → Bool} (hn : ∀ a ∈ items, (f a).Nodup) (hP : ∀ a ∈ items, b ∈ f a → P a = true) :
    (items.flatMap f).count b ≤ items.countP P := by
  induction items with
  | nil => simp
  | cons a items ih =>
    have hrest := ih (fun a ha => hn a (List.mem_cons_of_mem _ ha)) fun a ha =>
      hP a (List.mem_cons_of_mem _ ha)
    have hhead := List.nodup_iff_count_le_one.mp (hn a List.mem_cons_self) b
    rw [List.flatMap_cons, List.count_append, List.countP_cons]
    by_cases hb : b ∈ f a
    · rw [if_pos (hP a List.mem_cons_self hb)]
      omega
    · rw [List.count_eq_zero.mpr hb]
      omega

theorem count_map {α : Type} (key : α → String) (items : List α) (k : String) :
    (items.map key).count k = items.countP (key · = k) := by
  rw [List.count, List.countP_map]
  rfl

theorem eq_of_length_le_one {α : Type} {items : List α} (h : items.length ≤ 1) {a b : α}
    (ha : a ∈ items) (hb : b ∈ items) : a = b := by
  match items, h with
  | [c], _ => rw [List.mem_singleton.mp ha, List.mem_singleton.mp hb]

/-! ## Flows -/

/-- The edge that leads to the first step. -/
def firstEdge? (p : Plan) : Option Edge :=
  (p.outgoing p.entry).find? fun e => ((p.step? e.target).map fun s => !s.isTrigger).getD false

theorem firstEdge?_eq_some (h : firstEdge? p = some e) : e ∈ p.edges ∧ e.source = p.entry := by
  obtain ⟨hm, hsource⟩ := List.mem_filter.mp (List.mem_of_find?_eq_some h)
  exact ⟨hm, by simpa using hsource⟩

namespace Flow

/-- The blocks that a flow is written as, those of the main sequence and of the continuations. -/
def blocks (f : Flow) : List Block :=
  blocksIn f.main ++ f.continuations.flatMap fun c => blocksIn c.body

/-- The steps of the blocks. -/
def steps (f : Flow) : List Step := f.blocks.map Block.step

/-- The edges that are followed: to the first step, from the steps of all blocks, and from the joins
to what is walked as their continuations. -/
def edges (p : Plan) (f : Flow) : List Edge :=
  (firstEdge? p).toList ++ (f.steps.flatMap (followed p) ++
    f.continuations.flatMap fun c => (p.nextEdge? c.join).toList)

theorem steps_eq (f : Flow) :
    f.steps = stepsIn f.main ++ f.continuations.flatMap fun c => stepsIn c.body := by
  rw [steps, blocks, List.map_append, List.map_flatMap]
  rfl

variable {f : Flow} (hf : flowOf p = .ok f)

include hf

/-- Every block is entered by an edge of its own among those that are followed. -/
theorem ids_subperm : (f.steps.map (·.id)).Subperm ((f.edges p).map (·.target)) := by
  have hmain : ((stepsIn f.main).map (·.id)).Subperm
      (((firstEdge? p).toList ++ (stepsIn f.main).flatMap (followed p)).map (·.target)) := by
    have hwalk := ids_subperm_walk (p := p) [p.entry] (firstStep? p)
    rw [(flowOf_eq_ok hf).1, List.map_append, ← Option.toList_map]
    exact hwalk
  have hcont : (f.continuations.flatMap fun c => (stepsIn c.body).map (·.id)).Subperm
      (f.continuations.flatMap fun c => (p.nextEdge? c.join).toList.map (·.target) ++
        ((stepsIn c.body).flatMap (followed p)).map (·.target)) :=
    subperm_flatMap _ fun c hc => by
      rw [body_eq hf hc, ← toList_nextTarget]
      exact ids_subperm_walk _ _
  have hsplit := List.flatMap_append_perm f.continuations
    (fun c => (p.nextEdge? c.join).toList.map (·.target))
    (fun c => ((stepsIn c.body).flatMap (followed p)).map (·.target))
  rw [steps_eq, List.map_append, List.map_flatMap]
  refine (hmain.append (hcont.trans hsplit.symm.subperm)).trans (List.Perm.subperm ?_)
  simp only [edges, steps_eq, List.map_append, List.flatMap_append, List.map_flatMap,
    List.flatMap_assoc, List.append_assoc]
  exact ((List.perm_append_comm).append_left _).append_left _

/-- The steps of all blocks are strictly after the entry, and so are the joins of continuations. -/
theorem after_entry {trigger : Step} (hs : p.step? p.entry = some trigger) :
    (∀ s ∈ f.steps, p.step? s.id = some s ∧ TransGen p.Leads p.entry s.id) ∧
      ∀ c ∈ f.continuations, ∃ s, p.step? c.join = some s ∧ s.form = .join ∧
        TransGen p.Leads p.entry c.join := by
  obtain ⟨hmain, hbuilt⟩ := flowOf_eq_ok hf
  have hfirst : ∀ b ∈ blocksIn f.main, p.step? b.step.id = some b.step ∧ b.form = b.step.form ∧
      TransGen p.Leads p.entry b.step.id := fun b hb => by
    rw [hmain] at hb
    obtain ⟨t, ht, hr⟩ := walk_reaches hb
    exact ⟨(mem_walk hb).1, (mem_walk hb).2.2, .head' (leads_firstStep hs ht) hr⟩
  have hinner : ∀ within s, p.step? s.id = some s → TransGen p.Leads p.entry s.id →
      ∀ b ∈ blocksIn (continuationOf p within s.id).body, p.step? b.step.id = some b.step ∧
        b.form = b.step.form ∧ TransGen p.Leads p.entry b.step.id := fun within s hs hr b hb => by
    obtain ⟨t, ht, hr'⟩ := walk_reaches hb
    exact ⟨(mem_walk hb).1, (mem_walk hb).2.2, hr.trans (.head' (Plan.leads_nextTarget hs ht) hr')⟩
  have hjoin := hbuilt.exists_join (P := fun _ b => p.step? b.step.id = some b.step ∧
      b.form = b.step.form ∧ TransGen p.Leads p.entry b.step.id)
    (fun v hv => by
      obtain ⟨visit, hvisit, rfl⟩ := List.mem_map.mp hv
      exact hfirst _ (List.mem_map_of_mem hvisit))
    (fun within s hs _ b hb => hinner within s hs.1 hs.2.2 b hb)
  refine ⟨fun s hs => ?_, fun c hc => ?_⟩
  · obtain ⟨b, hb, rfl⟩ := List.mem_map.mp hs
    rcases List.mem_append.mp hb with hb | hb
    · exact ⟨(hfirst b hb).1, (hfirst b hb).2.2⟩
    · obtain ⟨c, hc, hb⟩ := List.mem_flatMap.mp hb
      obtain ⟨within, j, hj, rfl⟩ := hjoin c hc
      have h := hinner within j hj.1 hj.2.2 b hb
      exact ⟨h.1, h.2.2⟩
  · obtain ⟨within, j, hj, rfl⟩ := hjoin c hc
    exact ⟨j, hj.1, hj.2.1.symm, hj.2.2⟩

variable {trigger : Step} (hs : p.step? p.entry = some trigger)

include hs

theorem mem_edges (he : e ∈ f.edges p) :
    e ∈ p.edges ∧ ReflTransGen p.Leads p.entry e.source ∧ (p.step? e.source).isSome := by
  obtain ⟨hsteps, hjoins⟩ := after_entry hf hs
  simp only [edges, List.mem_append, List.mem_flatMap, Option.mem_toList] at he
  rcases he with he | ⟨s, hm, he⟩ | ⟨c, hc, he⟩
  · obtain ⟨hedge, hsource⟩ := firstEdge?_eq_some he
    rw [hsource]
    exact ⟨hedge, .refl, by simp [hs]⟩
  · obtain ⟨hedge, hsource⟩ := mem_followed he
    obtain ⟨hstep, hreach⟩ := hsteps s hm
    rw [hsource]
    exact ⟨hedge, hreach.to_reflTransGen, by simp [hstep]⟩
  · obtain ⟨hedge, hsource⟩ := Plan.nextEdge?_eq_some he
    obtain ⟨s, hstep, -, hreach⟩ := hjoins c hc
    rw [hsource]
    exact ⟨hedge, hreach.to_reflTransGen, by simp [hstep]⟩

variable (hac : p.AcyclicFrom p.entry) (hst : p.Structured)

include hac hst

/-- An edge is followed at most once, unless its source is written more than once. The three places
from which edges are followed share no source: nothing leads back to the entry, and what follows a
join is walked only as its continuation. -/
theorem count_edges_le (e : Edge)
    (hsource : f.steps.countP (fun s => s.id = e.source ∧ s.form ≠ .join) ≤ 1) :
    (f.edges p).count e ≤ 1 := by
  obtain ⟨hsteps, hjoins⟩ := after_entry hf hs
  have hfirst : ((firstEdge? p).toList).count e ≤ 1 := by
    cases firstEdge? p with
    | none => simp
    | some e' => simpa using List.nodup_iff_count_le_one.mp (List.nodup_singleton e') e
  have hwalked : (f.steps.flatMap (followed p)).count e ≤
      f.steps.countP (fun s => s.id = e.source ∧ s.form ≠ .join) := by
    refine count_flatMap_le (fun s hm => followed_nodup ?_) fun s hm he => ?_
    · exact hst.cases s.id s (hsteps s hm).2.to_reflTransGen (hsteps s hm).1
    · have hform : s.form ≠ .join := fun hj => by simp [followed, hj] at he
      simp [hform, (mem_followed he).2]
  have hresumed : (f.continuations.flatMap fun c => (p.nextEdge? c.join).toList).count e ≤
      (f.continuations.map (·.join)).count e.source := by
    rw [count_map]
    refine count_flatMap_le (fun c _ => by cases p.nextEdge? c.join <;> simp) fun c _ he => ?_
    simp [(Plan.nextEdge?_eq_some (Option.mem_toList.mp he)).2]
  have hjoin := List.nodup_iff_count_le_one.mp (joins_nodup hf) e.source
  -- A source that is the entry or a join is not that of a step from which edges are followed.
  have hentry : e ∈ (firstEdge? p).toList → e.source = p.entry := fun he =>
    (firstEdge?_eq_some (Option.mem_toList.mp he)).2
  have hnone : ∀ id s, p.step? id = some s → s.form = .join →
      f.steps.countP (fun s => s.id = id ∧ s.form ≠ .join) = 0 := fun id s hstep hform => by
    rw [List.countP_eq_zero]
    intro s' hm hs'
    simp only [ne_eq, decide_eq_true_eq] at hs'
    obtain ⟨rfl, hne⟩ := hs'
    have hsame := Option.some.inj (hstep.symm.trans (hsteps s' hm).1)
    exact hne (hsame ▸ hform)
  rw [edges, List.count_append, List.count_append]
  by_cases hin : e.source ∈ f.continuations.map (·.join)
  · obtain ⟨c, hc, hcj⟩ := List.mem_map.mp hin
    obtain ⟨s, hstep, hform, hreach⟩ := hjoins c hc
    rw [hcj] at hstep hreach
    have hzero := hnone e.source s hstep hform
    have hnot : e ∉ (firstEdge? p).toList := fun he =>
      hac p.entry .refl (hentry he ▸ hreach)
    have := List.count_eq_zero.mpr hnot
    omega
  · have hzero := List.count_eq_zero.mpr hin
    by_cases he : e ∈ (firstEdge? p).toList
    · have hnot : f.steps.countP (fun s => s.id = e.source ∧ s.form ≠ .join) = 0 := by
        rw [List.countP_eq_zero]
        intro s hm hs'
        simp only [ne_eq, decide_eq_true_eq] at hs'
        have hreach := (hsteps s hm).2
        rw [hs'.1, hentry he] at hreach
        exact hac p.entry .refl hreach
      omega
    · have := List.count_eq_zero.mpr he
      omega

/-- A step is written at most once unless it is a join: it is entered by one edge, whose source is
written at most once. -/
theorem countP_steps_le (n : String) :
    f.steps.countP (fun s => s.id = n ∧ s.form ≠ .join) ≤ 1 := by
  induction n using hac.induct_back with
  | step n ih =>
    by_cases hno : f.steps.countP (fun s => s.id = n ∧ s.form ≠ .join) = 0
    · omega
    obtain ⟨s, hm, hs'⟩ := List.countP_pos_iff.mp (Nat.pos_of_ne_zero hno)
    simp only [ne_eq, decide_eq_true_eq] at hs'
    obtain ⟨rfl, hform⟩ := hs'
    obtain ⟨hstep, hreach⟩ := (after_entry hf hs).1 s hm
    have hone := hst.entered s.id s hreach.to_reflTransGen hstep hform
    have hcount : f.steps.countP (fun s' => s'.id = s.id ∧ s'.form ≠ .join) ≤
        (f.edges p).countP (·.target = s.id) :=
      calc _ ≤ f.steps.countP (·.id = s.id) := List.countP_mono_left fun s' _ => by simp_all
        _ = (f.steps.map (·.id)).count s.id := (count_map ..).symm
        _ ≤ ((f.edges p).map (·.target)).count s.id := (ids_subperm hf).count_le _
        _ = (f.edges p).countP (·.target = s.id) := count_map ..
    obtain ⟨e, he, htarget⟩ := List.countP_pos_iff.mp
      (Nat.lt_of_lt_of_le (Nat.pos_of_ne_zero hno) hcount)
    simp only [decide_eq_true_eq] at htarget
    obtain ⟨hedge, hsource, hsome⟩ := mem_edges hf hs he
    have hunique : ∀ e' ∈ f.edges p, e'.target = s.id → e' = e := fun e' he' ht => by
      have hmem : ∀ {x}, x ∈ f.edges p → x.target = s.id →
          x ∈ p.edges.filter (·.target = s.id) := fun hx hxt =>
        List.mem_filter.mpr ⟨(mem_edges hf hs hx).1, by simpa using hxt⟩
      exact eq_of_length_le_one hone (hmem he' ht) (hmem he htarget)
    calc _ ≤ (f.edges p).countP (·.target = s.id) := hcount
      _ ≤ (f.edges p).count e := List.countP_mono_left fun e' he' ht => by
          simpa using hunique e' he' (by simpa using ht)
      _ ≤ 1 := count_edges_le hf hs hac hst e (ih e.source hsource ⟨hsome, e, hedge, rfl, htarget⟩)

theorem edges_nodup : (f.edges p).Nodup := List.nodup_iff_count_le_one.mpr fun e =>
  count_edges_le hf hs hac hst e (countP_steps_le hf hs hac hst e.source)

/-- There are no more blocks than edges. -/
theorem length_blocks_le : f.blocks.length ≤ p.edges.length := by
  have hsub : f.edges p ⊆ p.edges := fun e he => (mem_edges hf hs he).1
  calc f.blocks.length = (f.steps.map (·.id)).length := by simp [steps]
    _ ≤ ((f.edges p).map (·.target)).length := (ids_subperm hf).length_le
    _ = (f.edges p).length := List.length_map _
    _ ≤ p.edges.length := (edges_nodup hf hs hac hst).length_le_of_subset hsub

end Flow

/-- The node whose result a block sets. -/
def Block.result? : Block → Option String
  | .action s => some s.id
  | _ => none

theorem Block.result?_eq_some {b : Block} {a : String} (h : b.result? = some a) :
    b.step.id = a ∧ b.form = .action := by
  cases b <;> simp_all [Block.result?, Block.step, Block.form]

theorem Flow.results_nodup {f : Flow} (hf : flowOf p = .ok f) {trigger : Step}
    (hs : p.step? p.entry = some trigger) (hac : p.AcyclicFrom p.entry) (hst : p.Structured) :
    (f.blocks.filterMap Block.result?).Nodup := by
  rw [List.nodup_iff_count_le_one]
  intro a
  have hform : ∀ b ∈ f.blocks, b.form = b.step.form := fun b hb => by
    rcases List.mem_append.mp hb with hb | hb
    · rw [(flowOf_eq_ok hf).1] at hb
      exact (mem_walk hb).2.2
    · obtain ⟨c, hc, hb⟩ := List.mem_flatMap.mp hb
      rw [body_eq hf hc] at hb
      exact (mem_walk hb).2.2
  calc (f.blocks.filterMap Block.result?).count a
      = f.blocks.countP (fun b => b.result? == some a) := List.count_filterMap
    _ ≤ f.blocks.countP (fun b => b.step.id = a ∧ b.step.form ≠ .join) :=
        List.countP_mono_left fun b hb h => by
          obtain ⟨hid, hact⟩ := Block.result?_eq_some (by simpa using h)
          simp [hid, ← hform b hb, hact]
    _ = f.steps.countP (fun s => s.id = a ∧ s.form ≠ .join) := by
        rw [Flow.steps, List.countP_map]
        rfl
    _ ≤ 1 := countP_steps_le hf hs hac hst a

theorem continuationNames_nodup {h : Handler} (hp : ofPlan p = .ok h) :
    (h.flow.continuations.map (h.continuationName ·.join)).Nodup := by
  obtain ⟨-, -, -, -, hf, hn⟩ := ofPlan_eq_ok hp
  have hids : ∀ c ∈ h.flow.continuations, c.join ∈ p.steps.map (·.id) := fun c hc => by
    obtain ⟨s, hs, hid⟩ := List.mem_map.mp (Flow.joins_subset hf _ (List.mem_map_of_mem hc))
    exact List.mem_map.mpr ⟨s, List.mem_of_mem_filter hs, hid⟩
  refine List.Nodup.map_on (fun c hc d hd he => ?_) (List.Nodup.of_map _ (Flow.joins_nodup hf))
  exact List.inj_on_of_nodup_map (Flow.joins_nodup hf) hc hd
    (continuationName_inj hn (hids c hc) (hids d hd) he)

/-- **Joins keep the text of a handler linear.** If no cycle can be reached and ways part and meet
in order, the text sets the result of each node in one place at most, defines each coroutine that is
awaited, and none twice, and has no more blocks than the graph has edges. -/
theorem joined_once {h : Handler} (hp : ofPlan p = .ok h) (hac : p.AcyclicFrom p.entry)
    (hst : p.Structured) :
    (h.flow.blocks.filterMap Block.result?).Nodup ∧
      (h.flow.continuations.map (h.continuationName ·.join)).Nodup ∧
      (∀ k, h.flow.Awaits k →
        h.continuationName k ∈ h.flow.continuations.map (h.continuationName ·.join)) ∧
      h.flow.blocks.length ≤ p.edges.length := by
  obtain ⟨-, hs, -, -, hf, -⟩ := ofPlan_eq_ok hp
  refine ⟨Flow.results_nodup hf hs hac hst, continuationNames_nodup hp, fun k hk => ?_,
    Flow.length_blocks_le hf hs hac hst⟩
  obtain ⟨c, hc, rfl⟩ := List.mem_map.mp (Flow.Awaits.mem hf hk)
  exact List.mem_map_of_mem hc

/-- Two places where ways part and meet, one after the other. -/
def series : Plan where
  steps := [
    { id := "start", kind := "trigger-manual", role := .trigger, data := [], structural := false,
      category := .core },
    { id := "pick", kind := "switch", role := .action,
      data := [("expression", .str "input"), ("cases", .list [.str "a"])], structural := true,
      category := .core },
    { id := "left", kind := "value", role := .action, data := [("value", .int 1)],
      structural := false, category := .core },
    { id := "right", kind := "value", role := .action, data := [("value", .int 2)],
      structural := false, category := .core },
    { id := "first", kind := "merge", role := .action, data := [], structural := true,
      category := .core },
    { id := "ask", kind := "if", role := .action, data := [("condition", .str "input")],
      structural := true, category := .core },
    { id := "second", kind := "merge", role := .action, data := [], structural := true,
      category := .core },
    { id := "last", kind := "value", role := .action, data := [("value", .int 3)],
      structural := false, category := .core }]
  edges := [
    { source := "start", target := "pick" },
    { source := "pick", target := "left", sourcePort := some "a" },
    { source := "pick", target := "right", sourcePort := some "default" },
    { source := "left", target := "first" },
    { source := "right", target := "first" },
    { source := "first", target := "ask" },
    { source := "ask", target := "second", sourcePort := some "true" },
    { source := "ask", target := "second", sourcePort := some "false" },
    { source := "second", target := "last" }]
  entry := "start"
  hasCycle := false
  depth := 6

theorem series_structured : series.Structured where
  entered id s _ hs := by
    have hall : ∀ s ∈ series.steps, s.form ≠ .join →
        (series.edges.filter (·.target = s.id)).length ≤ 1 := by decide
    exact Plan.step?_id hs ▸ hall s (List.mem_of_find?_eq_some hs)
  cases id s _ hs := by
    have hall : ∀ s ∈ series.steps, s.form.cases.Nodup ∧ "default" ∉ s.form.cases := by decide
    exact hall s (List.mem_of_find?_eq_some hs)

theorem series_joined : ∃ h, ofPlan series = .ok h ∧ series.AcyclicFrom series.entry ∧
    series.Structured ∧ (h.flow.blocks.filterMap Block.result?).Nodup ∧
    h.flow.continuations.length = 2 ∧ h.flow.blocks.length ≤ 9 := by
  obtain ⟨h, hp⟩ := exists_eq_ok (x := ofPlan series) (by cbv)
  have hac : series.AcyclicFrom series.entry :=
    Plan.acyclicFrom_of_rank (fun id => series.steps.reverse.findIdx (·.id = id)) (by decide) _
  have hlen : h.flow.continuations.length = 2 := by
    have heval : (ofPlan series).map (·.flow.continuations.length) = .ok 2 := by cbv
    rw [hp] at heval
    exact Except.ok.inj heval
  obtain ⟨hresults, -, -, hblocks⟩ := joined_once hp hac series_structured
  exact ⟨h, hp, hac, series_structured, hresults, hlen, hblocks⟩

end Handler

end Workflow
