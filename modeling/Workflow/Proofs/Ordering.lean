/-
The order of execution: it holds every node after all that lead to it, if there
is such an order, and otherwise fails with the nodes that a cycle keeps waiting
(`executionOrder_exact`).

While nodes are taken, the count of a node is the number of its incoming edges
whose source is not yet taken, repeated edges counted each time; so a node waits
in the queue or has been taken just if that number is zero (`Taking`). At the
end, what has been taken is what no way leads back from for ever: the nodes that
are accessible along the edges (`mem_readyOrder`), and in a finite graph those
are the ones that no cycle leads to (`acc_joins_iff`).
-/
import Workflow.Proofs.Cycles

namespace Workflow.Graph

open Relation

variable {g : Graph} {a b id : String}

/-! ## Nodes that a cycle leads to -/

/-- A node lies on a cycle or can be reached from one. -/
def AfterCycle (g : Graph) (id : String) : Prop := ∃ c, g.OnCycle c ∧ g.Reaches c id

instance (g : Graph) (id : String) : Decidable (g.AfterCycle id) :=
  decidable_of_iff (∃ c ∈ g.ids, g.OnCycle c ∧ g.Reaches c id) <| by
    constructor
    · rintro ⟨c, -, hc⟩
      exact ⟨c, hc⟩
    · rintro ⟨c, hc⟩
      exact ⟨c, mem_ids_of_transGen hc.1, hc⟩

theorem AfterCycle.mem_ids (h : g.AfterCycle id) : id ∈ g.ids := by
  obtain ⟨c, hc, hreach⟩ := h
  rcases reflTransGen_iff_eq_or_transGen.mp hreach with rfl | hreach
  · exact mem_ids_of_transGen hc
  · obtain ⟨d, -, hd⟩ := TransGen.tail'_iff.mp hreach
    exact hd.mem_ids

theorem AfterCycle.step (h : g.AfterCycle a) (hab : g.Joins a b) : g.AfterCycle b := by
  obtain ⟨c, hc, hreach⟩ := h
  exact ⟨c, hc, hreach.tail hab⟩

theorem cyclic_iff : g.Cyclic ↔ ∃ id, g.AfterCycle id := by
  constructor
  · rintro ⟨c, hc⟩
    exact ⟨c, c, hc, .refl⟩
  · rintro ⟨id, c, hc, -⟩
    exact ⟨c, hc⟩

/-- Ways to a node end somewhere when they are followed back, just if no cycle leads to it. -/
theorem acc_joins_iff : Acc g.Joins id ↔ ¬ g.AfterCycle id := by
  constructor
  · rintro hacc ⟨c, hc, hreach⟩
    have hback : Acc (TransGen g.Joins) c := by
      refine Acc.transGen ?_
      clear hc
      induction hreach with
      | refl => exact hacc
      | tail _ hstep ih => exact ih (hacc.inv hstep)
    induction hback with
    | intro c _ ih => exact ih c hc hc (hc.to_reflTransGen.trans hreach)
  · intro hid
    by_cases hmem : id ∈ g.ids
    · -- There are finitely many nodes, and a way between those that no cycle leads to never returns.
      let Before (a b : { id // id ∈ g.ids ∧ ¬ g.AfterCycle id }) : Prop := TransGen g.Joins a b
      have : IsTrans _ Before := ⟨fun _ _ _ hab hbc => hab.trans hbc⟩
      have : Std.Irrefl Before := ⟨fun a ha => a.2.2 ⟨a, ha, .refl⟩⟩
      have : Finite { id // id ∈ g.ids ∧ ¬ g.AfterCycle id } :=
        (g.ids.finite_toSet.subset fun _ h => h.1).to_subtype
      have hwf : WellFounded Before := Finite.wellFounded_of_trans_of_irrefl Before
      have hacc : ∀ a : { id // id ∈ g.ids ∧ ¬ g.AfterCycle id }, Acc g.Joins a := by
        intro a
        induction a using hwf.induction with
        | h a ih =>
          refine .intro _ fun b hb => ?_
          exact ih ⟨b, hb.source_mem_ids, fun hcycle => a.2.2 (hcycle.step hb)⟩ (.single hb)
      exact hacc ⟨id, hmem, hid⟩
    · exact .intro _ fun b hb => absurd hb.mem_ids hmem

/-! ## Counts of incoming edges -/

theorem mem_predecessors : a ∈ g.predecessors b ↔ g.Joins a b := by
  simp only [predecessors, Joins, List.mem_map, List.mem_filter, Bool.and_eq_true,
    decide_eq_true_eq]
  constructor
  · rintro ⟨e, ⟨he, ht, hc⟩, hs⟩
    exact ⟨e, he, hc, hs, ht⟩
  · rintro ⟨e, he, hc, hs, ht⟩
    exact ⟨e, ⟨he, ht, hc⟩, hs⟩

/-- Edges from a node to another are counted alike at both ends. -/
theorem count_successors (g : Graph) (a b : String) :
    (g.successors a).count b = (g.predecessors b).count a := by
  simp only [successors, predecessors, List.count, List.countP_map, List.countP_filter]
  refine List.countP_congr fun e _ => ?_
  simp only [Function.comp_apply, beq_iff_eq, Bool.and_eq_true, decide_eq_true_eq]
  constructor
  · rintro ⟨ht, hs, hc⟩
    exact ⟨hs, ht, hc⟩
  · rintro ⟨hs, ht, hc⟩
    exact ⟨ht, hs, hc⟩

/-- How many edges enter a node from nodes that have not been taken. -/
def pending (g : Graph) (done : List String) (id : String) : Nat :=
  (g.predecessors id).countP (· ∉ done)

theorem pending_eq_zero {done : List String} :
    g.pending done id = 0 ↔ ∀ a, g.Joins a id → a ∈ done := by
  simp only [pending, List.countP_eq_zero, decide_eq_true_eq, not_not, mem_predecessors]

/-- Taking a node takes away the edges that leave it. -/
theorem pending_cons {done : List String} (ha : a ∉ done) :
    g.pending (a :: done) id = g.pending done id - (g.successors a).count id := by
  have hsum : g.pending (a :: done) id + (g.successors a).count id = g.pending done id := by
    rw [count_successors, pending, pending]
    induction g.predecessors id with
    | nil => rfl
    | cons b rest ih =>
      rw [List.countP_cons, List.countP_cons, List.count_cons, ← ih]
      by_cases hb : b = a
      · simp [hb, ha]
        omega
      · simp [hb]
        omega
  omega

/-- What a node releases: its counts go down, and those that come to zero join the queue. -/
theorem foldl_release {keys : List String} (xs : List String) (hxs : xs ⊆ keys) (f : String → Nat)
    (queue : List String) : ∃ new : List String,
    xs.foldl release (keys.map fun k => (k, f k), queue) =
      (keys.map fun k => (k, f k - xs.count k), queue ++ new) ∧
    new.Nodup ∧ ∀ y, y ∈ new ↔ 0 < f y ∧ f y ≤ xs.count y := by
  induction xs generalizing f queue with
  | nil => exact ⟨[], by simp, by simp, fun y => by simp; omega⟩
  | cons x xs ih =>
    obtain ⟨hx, hxs⟩ := List.cons_subset.mp hxs
    let f' (k : String) : Nat := if k = x then f k - 1 else f k
    have hrelease : release (keys.map fun k => (k, f k), queue) x =
        (keys.map fun k => (k, f' k), queue ++ if f x = 1 then [x] else []) := by
      simp only [release, lookup_map_keys, if_pos hx, Option.getD_some, List.map_map]
      split <;> simp [f', Function.comp_def]
    obtain ⟨new, hfold, hnew, hmem⟩ := ih hxs f' (queue ++ if f x = 1 then [x] else [])
    refine ⟨(if f x = 1 then [x] else []) ++ new, ?_, ?_, fun y => ?_⟩
    · rw [List.foldl_cons, hrelease, hfold, List.append_assoc]
      congr 2
      funext k
      by_cases hk : k = x
      · subst hk
        simp [f']
        omega
      · have hk' : (x == k) = false := beq_false_of_ne (Ne.symm hk)
        simp [f', hk, List.count_cons, hk']
    · by_cases hfx : f x = 1
      · have hxnew : x ∉ new := fun hm => by simpa [f', hfx] using (hmem x).mp hm
        simpa [hfx, hnew] using hxnew
      · simpa [hfx] using hnew
    · rw [List.mem_append, hmem y]
      by_cases hy : y = x
      · subst hy
        simp only [f', if_true, List.count_cons_self]
        split <;> simp <;> omega
      · have hy' : (x == y) = false := beq_false_of_ne (Ne.symm hy)
        simp only [f', hy, if_false, List.count_cons, hy']
        split <;> simp [hy]

/-! ## Taking nodes -/

/-- Every node of a list comes before all that lead to it: it lists nodes that have been taken, the
last one first. -/
def Grounded (g : Graph) : List String → Prop
  | [] => True
  | id :: before => (∀ a, g.Joins a id → a ∈ before) ∧ g.Grounded before

theorem Grounded.acc {done : List String} (h : g.Grounded done) (hid : id ∈ done) :
    Acc g.Joins id := by
  induction done generalizing id with
  | nil => exact absurd hid List.not_mem_nil
  | cons b before ih =>
    rcases List.mem_cons.mp hid with rfl | hid
    · exact .intro _ fun a ha => ih h.2 (h.1 a ha)
    · exact ih h.2 hid

theorem Grounded.idxOf_lt {done : List String} (h : g.Grounded done) (hdone : done.Nodup)
    (hab : g.Joins a b) (hb : b ∈ done) :
    a ∈ done ∧ done.reverse.idxOf a < done.reverse.idxOf b := by
  induction done with
  | nil => exact absurd hb List.not_mem_nil
  | cons id before ih =>
    obtain ⟨hid, hbefore⟩ := List.nodup_cons.mp hdone
    rw [List.reverse_cons]
    rcases List.mem_cons.mp hb with rfl | hb
    · have ha : a ∈ before := h.1 a hab
      refine ⟨List.mem_cons_of_mem _ ha, ?_⟩
      rw [List.idxOf_append_of_mem (List.mem_reverse.mpr ha),
        List.idxOf_append_of_notMem (mt List.mem_reverse.mp hid)]
      exact Nat.lt_add_right _ (List.idxOf_lt_length_of_mem (List.mem_reverse.mpr ha))
    · obtain ⟨ha, hlt⟩ := ih h.2 hbefore hb
      refine ⟨List.mem_cons_of_mem _ ha, ?_⟩
      rwa [List.idxOf_append_of_mem (List.mem_reverse.mpr ha),
        List.idxOf_append_of_mem (List.mem_reverse.mpr hb)]

/-- A moment in which nodes are taken. -/
structure Taking (g : Graph) (degrees : List (String × Nat)) (queue done : List String) : Prop where
  counts : degrees = g.ids.map fun id => (id, g.pending done id)
  distinct : (queue ++ done).Nodup
  /-- Nodes wait or have been taken just if nothing that leads to them is pending. -/
  freed : ∀ id, id ∈ queue ++ done ↔ id ∈ g.ids ∧ g.pending done id = 0
  grounded : g.Grounded done

namespace Taking

variable {degrees : List (String × Nat)} {queue done : List String}

theorem start (hids : g.ids.Nodup) :
    g.Taking g.inDegrees ((g.inDegrees.filter (·.2 = 0)).map (·.1)) [] := by
  have hcounts : g.inDegrees = g.ids.map fun id => (id, g.pending [] id) := by
    simp [inDegrees, ids, pending]
  have hqueue : (g.inDegrees.filter (·.2 = 0)).map (·.1) =
      g.ids.filter fun id => g.pending [] id = 0 := by
    rw [hcounts, List.filter_map, List.map_map]
    exact List.map_id' _
  refine ⟨hcounts, ?_, fun id => ?_, trivial⟩
  · rw [List.append_nil, hqueue]
    exact hids.filter _
  · rw [List.append_nil, hqueue, List.mem_filter, decide_eq_true_eq]

/-- The first node of the queue is taken. -/
theorem step (h : g.Taking degrees (id :: queue) done) :
    g.Taking ((g.successors id).foldl release (degrees, queue)).1
      ((g.successors id).foldl release (degrees, queue)).2 (id :: done) := by
  obtain ⟨hid, hrest⟩ := List.nodup_cons.mp h.distinct
  have hfresh : id ∉ done := fun hm => hid (List.mem_append_right _ hm)
  have hzero : g.pending done id = 0 := ((h.freed id).mp List.mem_cons_self).2
  have hsub : g.successors id ⊆ g.ids := fun b hb => (mem_successors.mp hb).mem_ids
  obtain ⟨new, hfold, hnew, hmem⟩ :=
    foldl_release (g.successors id) hsub (g.pending done) queue
  have hperm : (queue ++ new ++ id :: done).Perm (new ++ (id :: queue ++ done)) := by
    rw [List.perm_iff_count]
    intro x
    simp only [List.count_append, List.count_cons]
    omega
  have hpending : ∀ x, g.pending (id :: done) x = 0 ↔ x ∈ new ∨ g.pending done x = 0 := by
    intro x
    rw [pending_cons hfresh, hmem x]
    omega
  rw [h.counts, hfold]
  refine ⟨?_, ?_, fun x => ?_, pending_eq_zero.mp hzero, h.grounded⟩
  · simp only [pending_cons hfresh]
  · rw [hperm.nodup_iff]
    refine hnew.append h.distinct fun x hx hm => ?_
    exact Nat.ne_of_gt ((hmem x).mp hx).1 ((h.freed x).mp hm).2
  · rw [hperm.mem_iff, List.mem_append, h.freed, hpending]
    constructor
    · rintro (hx | ⟨hx, hz⟩)
      · obtain ⟨hpos, hle⟩ := (hmem x).mp hx
        exact ⟨hsub (List.count_pos_iff.mp (by omega)), .inl hx⟩
      · exact ⟨hx, .inr hz⟩
    · rintro ⟨hx, hnew | hz⟩
      · exact .inl hnew
      · exact .inr ⟨hx, hz⟩

theorem length_le (h : g.Taking degrees queue done) :
    queue.length + done.length ≤ g.ids.length := by
  rw [← List.length_append]
  exact (List.subperm_of_subset h.distinct fun id hid => ((h.freed id).mp hid).1).length_le

/-- With as many steps as nodes are left, nodes are taken until none waits. -/
theorem takeReady_eq (h : g.Taking degrees queue done) (fuel : Nat)
    (hfuel : g.ids.length ≤ fuel + done.length) : ∃ degrees' done',
    takeReady g.successors fuel degrees queue done = done'.reverse ∧
      g.Taking degrees' [] done' := by
  induction fuel generalizing degrees queue done with
  | zero =>
    have hlength := h.length_le
    have hqueue : queue = [] := List.length_eq_zero_iff.mp (by omega)
    subst hqueue
    exact ⟨degrees, done, rfl, h⟩
  | succ fuel ih =>
    cases queue with
    | nil => exact ⟨degrees, done, rfl, h⟩
    | cons id queue => exact ih h.step (by rw [List.length_cons]; omega)

/-- When no node waits, what has been taken is what ways lead to that start somewhere. -/
theorem mem_done (h : g.Taking degrees [] done) : id ∈ done ↔ id ∈ g.ids ∧ Acc g.Joins id := by
  have hfreed : ∀ id, id ∈ done ↔ id ∈ g.ids ∧ g.pending done id = 0 := h.freed
  constructor
  · intro hid
    exact ⟨((hfreed id).mp hid).1, h.grounded.acc hid⟩
  · rintro ⟨hid, hacc⟩
    induction hacc with
    | intro id _ ih =>
      refine (hfreed id).mpr ⟨hid, pending_eq_zero.mpr fun a ha => ?_⟩
      exact ih a ha ha.source_mem_ids

end Taking

/-! ## The order -/

variable (hids : g.ids.Nodup)
include hids

theorem readyOrder_spec : ∃ done : List String, g.readyOrder = done.reverse ∧ done.Nodup ∧
    g.Grounded done ∧ ∀ id, id ∈ done ↔ id ∈ g.ids ∧ ¬ g.AfterCycle id := by
  obtain ⟨degrees, done, hrun, htaking⟩ :=
    (Taking.start hids).takeReady_eq g.nodes.length (by simp [ids])
  refine ⟨done, hrun, htaking.distinct, htaking.grounded, fun id => ?_⟩
  rw [htaking.mem_done, acc_joins_iff]

/-- Without a cycle there is an order of all nodes that keeps to the edges. -/
theorem executionOrder_of_acyclic (h : ¬ g.Cyclic) : ∃ order, g.executionOrder = .ok order ∧
    order.Perm g.ids ∧ ∀ a b, g.Joins a b → order.idxOf a < order.idxOf b := by
  obtain ⟨done, hrun, hdone, hgrounded, hmem⟩ := readyOrder_spec hids
  have hall : ∀ id, id ∈ done.reverse ↔ id ∈ g.ids := by
    intro id
    rw [List.mem_reverse, hmem]
    exact and_iff_left fun hid => h (cyclic_iff.mpr ⟨id, hid⟩)
  have hperm : done.reverse.Perm g.ids :=
    (List.perm_ext_iff_of_nodup (List.nodup_reverse.mpr hdone) hids).mpr hall
  refine ⟨done.reverse, ?_, hperm, fun a b hab => ?_⟩
  · have hlength : done.reverse.length = g.nodes.length := by
      rw [hperm.length_eq, ids, List.length_map]
    rw [executionOrder, hrun, if_pos hlength]
  · have hb : b ∈ done := List.mem_reverse.mp ((hall b).mpr hab.mem_ids)
    exact (hgrounded.idxOf_lt hdone hab hb).2

/-- With a cycle, the nodes that it keeps waiting are named. -/
theorem executionOrder_of_cyclic (h : g.Cyclic) :
    g.executionOrder = .error (g.ids.filter fun id => g.AfterCycle id) := by
  obtain ⟨done, hrun, hdone, -, hmem⟩ := readyOrder_spec hids
  obtain ⟨c, hc⟩ := cyclic_iff.mp h
  have hlength : done.reverse.length ≠ g.nodes.length := by
    intro hlength
    have hsub : done.Subperm g.ids := List.subperm_of_subset hdone fun id hid => ((hmem id).mp hid).1
    have hperm : done.Perm g.ids := hsub.perm_of_length_le (by simp [ids, ← hlength])
    exact ((hmem c).mp (hperm.mem_iff.mpr hc.mem_ids)).2 hc
  rw [executionOrder, hrun, if_neg hlength]
  congr 1
  refine List.filter_congr fun id hid => ?_
  simp [hmem, hid]

omit hids

/-- **Nodes are ordered just if they can be.** Of any nodes and edges, repeated ones and edges that
name no node included: if the edges between nodes form no cycle, the order holds every node once and
the source of each edge before its target. If they do, it fails with the nodes that lie on a cycle or
can be reached from one, in order; and that is just when the analysis says that there are loops. -/
theorem executionOrder_exact (nodes : List Node) (edges : List Edge) :
    (¬ (make nodes edges).Cyclic → ∃ order, (make nodes edges).executionOrder = .ok order ∧
      order.Nodup ∧ (∀ id, id ∈ order ↔ id ∈ nodes.map (·.id)) ∧
      ∀ a b, (make nodes edges).Joins a b → order.idxOf a < order.idxOf b) ∧
    ((make nodes edges).Cyclic → (make nodes edges).executionOrder =
      .error ((nodes.map (·.id)).eraseDups.filter fun id => (make nodes edges).AfterCycle id)) ∧
    ∀ p, (make nodes edges).plan? = some p →
      (p.hasCycle = true ↔ ∃ ids, (make nodes edges).executionOrder = .error ids) := by
  have hids := ids_nodup nodes edges
  refine ⟨fun hacyclic => ?_, fun hcyclic => ?_, fun p hp => ?_⟩
  · obtain ⟨order, horder, hperm, hbefore⟩ := executionOrder_of_acyclic hids hacyclic
    refine ⟨order, horder, hperm.nodup_iff.mpr hids, fun id => ?_, hbefore⟩
    rw [hperm.mem_iff, ids_make, List.mem_eraseDups]
  · rw [executionOrder_of_cyclic hids hcyclic, ids_make]
  · obtain ⟨entry, -, rfl⟩ := Option.map_eq_some_iff.mp hp
    have hloops : (make nodes edges).hasCycle = true ↔ (make nodes edges).Cyclic := hasCycle_iff
    rw [hloops]
    constructor
    · intro hcyclic
      exact ⟨_, executionOrder_of_cyclic hids hcyclic⟩
    · rintro ⟨ids, herror⟩
      by_contra hacyclic
      obtain ⟨order, horder, -⟩ := executionOrder_of_acyclic hids hacyclic
      cases horder.symm.trans herror

/-- A node given twice, an edge given twice, and an edge that names no node. -/
def knottedNodes : List Node :=
  [{ id := "t", kind := "trigger-manual" }, { id := "c", kind := "last" },
    { id := "a", kind := "first" }, { id := "b", kind := "second" }, { id := "a", kind := "third" }]

def knottedEdges : List Edge :=
  [{ source := "t", target := "a" }, { source := "a", target := "b" },
    { source := "a", target := "b" }, { source := "b", target := "c" },
    { source := "nowhere", target := "t" }]

theorem knotted_ordered : (∃ order, (make knottedNodes knottedEdges).executionOrder = .ok order ∧
      order.Nodup ∧ ("c" ∈ order ∧ "nowhere" ∉ order) ∧ order.idxOf "a" < order.idxOf "b") ∧
    ∃ p, (make knottedNodes ({ source := "b", target := "b" } :: knottedEdges)).plan? = some p ∧
      p.hasCycle = true ∧
      (make knottedNodes ({ source := "b", target := "b" } :: knottedEdges)).executionOrder =
        .error ["c", "b"] := by
  obtain ⟨hstraight, -, -⟩ := executionOrder_exact knottedNodes knottedEdges
  obtain ⟨-, hloop, hreport⟩ :=
    executionOrder_exact knottedNodes ({ source := "b", target := "b" } :: knottedEdges)
  constructor
  · obtain ⟨order, horder, hnodup, hmem, hbefore⟩ :=
      hstraight (mt hasCycle_iff.mpr (ne_true_of_eq_false (by cbv)))
    refine ⟨order, horder, hnodup, ?_, hbefore "a" "b" (mem_successors.mp (by decide))⟩
    rw [hmem, hmem]
    decide
  · obtain ⟨p, hp⟩ := Option.isSome_iff_exists.mp (show (make knottedNodes
      ({ source := "b", target := "b" } :: knottedEdges)).plan?.isSome by cbv)
    have hcyclic := hloop ⟨"b", .single (mem_successors.mp (by decide))⟩
    refine ⟨p, hp, (hreport p hp).mpr ⟨_, hcyclic⟩, ?_⟩
    rw [hcyclic]
    cbv

end Workflow.Graph
