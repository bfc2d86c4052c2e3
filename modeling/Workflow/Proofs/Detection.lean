/-
The search for a cycle, turn by turn.

`hasCycle` is the search as one function. Here it is a machine that makes one
turn at a time and keeps the nodes on its path as a set beside the path, so that
it need not look through the path (`Search.turn`). The set is the path
(`Search.Kept`), and then a turn of the machine is an unfolding of the function
(`Search.Kept.turn`). Every turn does away with a root, an edge or a node on
the path (`Search.size`), so the verdict is there after as many turns as there
are roots, edges and nodes together, and it is exact (`detection_exact`).
-/
import Workflow.Proofs.Depth

namespace Workflow.Graph

open Relation

/-! ## The machine -/

/-- The state of a search. -/
structure Search where
  seen : List String
  /-- The nodes on the path, in any order. -/
  active : List String
  path : List Frame
  roots : List String
  deriving Repr, DecidableEq, Inhabited

namespace Search

/-- The search of a graph before its first turn. -/
def start (g : Graph) : Search := ⟨[], [], [], g.ids⟩

/-- Enters a node. -/
def enter (next : String → List String) (id : String) (s : Search) : Search :=
  { s with seen := id :: s.seen, active := id :: s.active, path := ⟨id, next id⟩ :: s.path }

/-- One turn of a search: its verdict, or the state that follows. -/
def turn (next : String → List String) (s : Search) : Bool ⊕ Search :=
  match s.path with
  | [] =>
    match s.roots with
    | [] => .inl false
    | root :: rest =>
      let s := { s with roots := rest }
      .inr (if root ∈ s.seen then s else s.enter next root)
  | ⟨node, []⟩ :: below => .inr { s with active := s.active.filter (· ≠ node), path := below }
  | ⟨node, id :: todo⟩ :: below =>
    if id ∈ s.active then .inl true
    else
      let s := { s with path := ⟨node, todo⟩ :: below }
      .inr (if id ∈ s.seen then s else s.enter next id)

/-- The verdict of a search, if it comes within some turns. -/
def verdictWithin (next : String → List String) : Nat → Search → Option Bool
  | 0, _ => none
  | n + 1, s =>
    match s.turn next with
    | .inl verdict => some verdict
    | .inr s' => verdictWithin next n s'

/-! ## What a turn does away with -/

/-- The turns that the nodes not yet entered can cost. -/
def ahead (next : String → List String) (members seen : List String) : Nat :=
  ∑ a ∈ members.toFinset.filter (· ∉ seen), ((next a).length + 1)

/-- A bound on the turns that are left. -/
def size (next : String → List String) (members : List String) (s : Search) : Nat :=
  s.roots.length + pathSize s.path + ahead next members s.seen

variable {next : String → List String} {members seen : List String} {id : String}

theorem ahead_cons (hid : id ∈ members) (hnew : id ∉ seen) :
    ahead next members seen = (next id).length + 1 + ahead next members (id :: seen) := by
  have hsplit : members.toFinset.filter (· ∉ seen) =
      insert id (members.toFinset.filter (· ∉ id :: seen)) := by
    ext a
    by_cases ha : a = id <;> simp [ha, hid, hnew]
  rw [ahead, hsplit, Finset.sum_insert (by simp), ahead]

/-- Entering a node costs nothing but what it leads to. -/
theorem size_enter {s : Search} (hid : id ∈ members) (hnew : id ∉ s.seen) :
    (s.enter next id).size next members = s.size next members := by
  simp only [size, enter, ahead_cons hid hnew, pathSize, List.foldr_cons]
  omega

/-! ## The set and the path -/

/-- What holds of a search between two turns. -/
structure Kept (members : List String) (s : Search) : Prop where
  /-- The set holds the nodes of the path. -/
  active : ∀ a, a ∈ s.active ↔ a ∈ s.path.map (·.node)
  distinct : (s.path.map (·.node)).Nodup
  entered : ∀ f ∈ s.path, f.node ∈ s.seen
  todo : ∀ f ∈ s.path, f.todo ⊆ members
  roots : s.roots ⊆ members

namespace Kept

variable {s : Search}

theorem start (g : Graph) : (start g).Kept g.ids where
  active := by simp [Search.start]
  distinct := by simp [Search.start]
  entered := by simp [Search.start]
  todo := by simp [Search.start]
  roots := fun _ ha => ha

theorem enter (h : s.Kept members) (hnext : ∀ a, next a ⊆ members) (hnew : id ∉ s.seen) :
    (s.enter next id).Kept members where
  active a := by simp only [Search.enter, List.mem_cons, List.map_cons, h.active]
  distinct := by
    refine List.nodup_cons.mpr ⟨fun hid => ?_, h.distinct⟩
    obtain ⟨f, hf, rfl⟩ := List.mem_map.mp hid
    exact hnew (h.entered f hf)
  entered := by
    refine List.forall_mem_cons.mpr ⟨List.mem_cons_self, fun f hf => ?_⟩
    exact List.mem_cons_of_mem _ (h.entered f hf)
  todo := List.forall_mem_cons.mpr ⟨hnext id, h.todo⟩
  roots := h.roots

/-- What is left is no more in the set than on the path, where it stood once. -/
theorem leave {f : Frame} {below : List Frame} (h : s.Kept members) (hpath : s.path = f :: below) :
    ({ s with active := s.active.filter (· ≠ f.node), path := below } : Search).Kept members where
  active a := by
    obtain ⟨hf, -⟩ := List.nodup_cons.mp (hpath ▸ h.distinct)
    simp only [List.mem_filter, h.active, hpath, List.map_cons, List.mem_cons, decide_eq_true_eq]
    constructor
    · rintro ⟨ha | ha, hne⟩
      · exact absurd ha hne
      · exact ha
    · intro ha
      refine ⟨.inr ha, fun he => ?_⟩
      subst he
      exact hf ha
  distinct := (List.nodup_cons.mp (hpath ▸ h.distinct)).2
  entered g hg := h.entered g (hpath ▸ List.mem_cons_of_mem _ hg)
  todo g hg := h.todo g (hpath ▸ List.mem_cons_of_mem _ hg)
  roots := h.roots

theorem look {node : String} {todo : List String} {below : List Frame} (h : s.Kept members)
    (hpath : s.path = ⟨node, id :: todo⟩ :: below) :
    ({ s with path := ⟨node, todo⟩ :: below } : Search).Kept members where
  active a := by simp only [h.active, hpath, List.map_cons]
  distinct := by simpa only [hpath, List.map_cons] using h.distinct
  entered := by
    obtain ⟨hf, hbelow⟩ := List.forall_mem_cons.mp (hpath ▸ h.entered)
    exact List.forall_mem_cons.mpr ⟨hf, hbelow⟩
  todo := by
    obtain ⟨hf, hbelow⟩ := List.forall_mem_cons.mp (hpath ▸ h.todo)
    exact List.forall_mem_cons.mpr ⟨(List.cons_subset.mp hf).2, hbelow⟩
  roots := h.roots

/-- A turn of the machine is an unfolding of the function, and does away with something. -/
theorem turn (h : s.Kept members) (hnext : ∀ a, next a ⊆ members) :
    (∃ verdict, s.turn next = .inl verdict ∧
      searchCycle next members s.seen s.path s.roots = verdict) ∨
    ∃ s' : Search, s.turn next = .inr s' ∧ s'.Kept members ∧
      s'.size next members < s.size next members ∧
      searchCycle next members s.seen s.path s.roots =
        searchCycle next members s'.seen s'.path s'.roots := by
  obtain ⟨seen, active, path, roots⟩ := s
  cases path with
  | nil =>
    cases roots with
    | nil => exact .inl ⟨false, rfl, by rw [searchCycle]⟩
    | cons root rest =>
      obtain ⟨hroot, hrest⟩ := List.cons_subset.mp h.roots
      have hkept : Search.Kept members ⟨seen, active, [], rest⟩ := { h with roots := hrest }
      have hsize : Search.size next members ⟨seen, active, [], rest⟩ <
          Search.size next members ⟨seen, active, [], root :: rest⟩ := by simp [Search.size]
      by_cases hseen : root ∈ seen
      · refine .inr ⟨_, by simp [Search.turn, hseen], hkept, hsize, ?_⟩
        rw [searchCycle, dif_neg fun hnew => hnew.2 hseen]
      · refine .inr ⟨_, by simp [Search.turn, hseen], hkept.enter hnext hseen, ?_, ?_⟩
        · rw [Search.size_enter hroot hseen]
          exact hsize
        · rw [searchCycle, dif_pos ⟨hroot, hseen⟩]
          rfl
  | cons f below =>
    obtain ⟨node, todo⟩ := f
    cases todo with
    | nil =>
      refine .inr ⟨_, rfl, h.leave rfl, ?_, by rw [searchCycle]⟩
      simp only [Search.size, pathSize, List.foldr_cons]
      omega
    | cons id todo =>
      have hmeets : (id = node || below.any (·.node = id)) = true ↔ id ∈ active := by
        rw [h.active, List.map_cons, List.mem_cons, Bool.or_eq_true, List.any_eq_true, List.mem_map]
        simp only [decide_eq_true_eq]
      have hid : id ∈ members := h.todo _ List.mem_cons_self List.mem_cons_self
      by_cases hactive : id ∈ active
      · refine .inl ⟨true, by simp [Search.turn, hactive], ?_⟩
        rw [searchCycle, if_pos (hmeets.mpr hactive)]
      · have hkept := h.look rfl
        have hsize : Search.size next members ⟨seen, active, ⟨node, todo⟩ :: below, roots⟩ <
            Search.size next members ⟨seen, active, ⟨node, id :: todo⟩ :: below, roots⟩ := by
          simp [Search.size, pathSize]
        by_cases hseen : id ∈ seen
        · refine .inr ⟨_, by simp [Search.turn, hactive, hseen], hkept, hsize, ?_⟩
          rw [searchCycle, if_neg (mt hmeets.mp hactive), dif_neg fun hnew => hnew.2 hseen]
        · refine .inr ⟨_, by simp [Search.turn, hactive, hseen], hkept.enter hnext hseen, ?_, ?_⟩
          · rw [Search.size_enter hid hseen]
            exact hsize
          · rw [searchCycle, if_neg (mt hmeets.mp hactive), dif_pos ⟨hid, hseen⟩]
            rfl

/-- The verdict is there when all is done away with, and it is that of the function. -/
theorem verdictWithin (h : s.Kept members) (hnext : ∀ a, next a ⊆ members) {n : Nat}
    (hn : s.size next members < n) :
    s.verdictWithin next n = some (searchCycle next members s.seen s.path s.roots) := by
  induction n generalizing s with
  | zero => omega
  | succ n ih =>
    rw [Search.verdictWithin]
    rcases h.turn hnext with ⟨verdict, hturn, hsearch⟩ | ⟨s', hturn, hkept, hsize, hsearch⟩
    · rw [hturn, hsearch]
    · rw [hturn, hsearch]
      exact ih hkept (by omega)

end Kept

/-- Every edge leads from one node, so all nodes together lead on at most as often as there are
edges. -/
theorem sum_successors_le (g : Graph) (ids : Finset String) :
    ∑ a ∈ ids, (g.successors a).length ≤ g.edges.length := by
  simp only [successors, List.length_map]
  generalize g.edges = edges
  induction edges with
  | nil => simp
  | cons e rest ih =>
    have hsplit : ∀ a, ((e :: rest).filter fun e => e.source = a && g.connects e).length ≤
        (if a = e.source then 1 else 0) +
          (rest.filter fun e => e.source = a && g.connects e).length := by
      intro a
      rw [List.filter_cons]
      by_cases ha : a = e.source
      · simp only [ha, if_true]
        split <;> simp
      · simp [ha, Ne.symm ha]
    calc ∑ a ∈ ids, ((e :: rest).filter fun e => e.source = a && g.connects e).length
        ≤ ∑ a ∈ ids, ((if a = e.source then 1 else 0) +
            (rest.filter fun e => e.source = a && g.connects e).length) :=
          Finset.sum_le_sum fun a _ => hsplit a
      _ ≤ 1 + rest.length := by
          rw [Finset.sum_add_distrib, Finset.sum_ite_eq']
          split <;> omega
      _ = (e :: rest).length := by simp [Nat.add_comm]

theorem size_start_le (g : Graph) :
    (start g).size g.successors g.ids ≤ 2 * g.ids.length + g.edges.length := by
  have hcard : g.ids.toFinset.card ≤ g.ids.length := g.ids.toFinset_card_le
  have hsum := sum_successors_le g g.ids.toFinset
  simp only [size, start, ahead, pathSize, List.foldr_nil, List.not_mem_nil, not_false_eq_true,
    Finset.filter_true, Finset.sum_add_distrib, Finset.sum_const, smul_eq_mul, mul_one]
  omega

end Search

/-- A graph has a cycle just if a way along at least one edge comes back to where it started. -/
theorem cyclic_iff_way {g : Graph} : g.Cyclic ↔ ∃ id way, g.Way id id way ∧ 1 < way.length := by
  constructor
  · rintro ⟨id, hcycle⟩
    obtain ⟨way, hway, hlength⟩ := Way.of_transGen hcycle (Way.start id)
    exact ⟨id, way, hway, hlength⟩
  · rintro ⟨id, way, hway, hlength⟩
    rcases hway.cases_last with ⟨-, rfl⟩ | ⟨c, before, hbefore, hstep, rfl⟩
    · simp at hlength
    · have hmem : c ∈ before := List.mem_of_getLast? hbefore.last
      exact ⟨id, TransGen.tail' (hbefore.reaches hmem) hstep⟩

/-- **Cycles are found exactly.** Whatever the nodes and edges, the search comes to a verdict within
as many turns as there are edges, and two for each node, and one. It finds a cycle if and only if a
way along edges between nodes comes back to where it started, wherever that lies: it may be an edge
from a node to itself, and need not be reached from the entry. -/
theorem detection_exact (g : Graph) :
    (∀ turns, 2 * g.ids.length + g.edges.length < turns →
      (Search.start g).verdictWithin g.successors turns = some g.hasCycle) ∧
    (g.hasCycle = true ↔ ∃ id way, g.Way id id way ∧ 1 < way.length) := by
  refine ⟨fun turns hturns => ?_, hasCycle_iff.trans cyclic_iff_way⟩
  have hnext : ∀ a, g.successors a ⊆ g.ids := fun a b hb => (mem_successors.mp hb).mem_ids
  have hsize := Search.size_start_le g
  exact (Search.Kept.start g).verdictWithin hnext (by omega)

/-- A loop that the entry does not lead to, which an edge to no node seems to leave. -/
def detached : Graph where
  nodes := [{ id := "t", kind := "trigger-manual" }, { id := "a", kind := "first" },
    { id := "b", kind := "second" }, { id := "c", kind := "third" }]
  edges := [{ source := "t", target := "a" }, { source := "a", target := "t2" },
    { source := "b", target := "nowhere" }, { source := "b", target := "c" },
    { source := "c", target := "a" }, { source := "c", target := "c" }]

theorem detached_detected :
    (Search.start detached).verdictWithin detached.successors 15 = some true ∧
    (∃ id way, detached.Way id id way ∧ 1 < way.length) ∧
    detached.unreachable "t" = ["b", "c"] := by
  obtain ⟨hturns, hcycle⟩ := detection_exact detached
  have hfound : detached.hasCycle = true := by cbv
  exact ⟨(hturns 15 (by decide)).trans (congrArg some hfound), hcycle.mp hfound, by cbv⟩

end Workflow.Graph
