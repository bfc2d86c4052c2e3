/-
The depth of a graph below an entry is exact (`depthBelow_exact`): it is the
length of the longest path, unless a cycle can be reached; then it is the number
of nodes, which no path can have.

Each depth that is found is the length of a way from the entry, and the depths
of a node's successors follow its own as soon as it has left the queue
(`Relaxing`), as far as the limit allows. At the end there are two cases. Below
the limit, no way is longer than the depth found, so that none goes round a
cycle. At the limit, a way was found that is too long to pass each node only
once.
-/
import Workflow.Proofs.Cycles

namespace Workflow.Graph

open Relation

variable {g : Graph} {a b c entry id : String}

/-! ## Ways -/

/-- A way along edges between nodes, given by the nodes that it passes. -/
structure Way (g : Graph) (a b : String) (way : List String) : Prop where
  linked : way.IsChain g.Joins
  head : way.head? = some a
  last : way.getLast? = some b

/-- A cycle can be reached from a node. -/
def ReachesCycle (g : Graph) (a : String) : Prop := ∃ c, g.Reaches a c ∧ g.OnCycle c

instance (g : Graph) (a : String) : Decidable (g.ReachesCycle a) :=
  decidable_of_iff (∃ c ∈ g.ids, g.Reaches a c ∧ g.OnCycle c) <| by
    constructor
    · rintro ⟨c, -, hc⟩
      exact ⟨c, hc⟩
    · rintro ⟨c, hc⟩
      exact ⟨c, mem_ids_of_transGen hc.2, hc⟩

namespace Way

variable {way : List String}

theorem start (a : String) : g.Way a a [a] := ⟨.singleton a, rfl, rfl⟩

theorem concat (h : g.Way a b way) (hbc : g.Joins b c) : g.Way a c (way ++ [c]) where
  linked := by
    refine List.isChain_append.mpr ⟨h.linked, .singleton c, fun x hx y hy => ?_⟩
    rw [h.last] at hx
    obtain rfl := Option.some.inj hx
    obtain rfl := Option.some.inj hy
    exact hbc
  head := by rw [List.head?_append, h.head, Option.some_or]
  last := List.getLast?_concat

/-- A way is of its first node, or it goes on from a shorter one. -/
theorem cases_last (h : g.Way a b way) :
    (b = a ∧ way = [a]) ∨ ∃ c before, g.Way a c before ∧ g.Joins c b ∧ way = before ++ [b] := by
  obtain ⟨before, rfl⟩ := List.getLast?_eq_some_iff.mp h.last
  cases hlast : before.getLast? with
  | none =>
    obtain rfl := List.getLast?_eq_none_iff.mp hlast
    obtain rfl := Option.some.inj h.head
    exact .inl ⟨rfl, rfl⟩
  | some c =>
    obtain ⟨hbefore, -, hstep⟩ := List.isChain_append.mp h.linked
    refine .inr ⟨c, before, ⟨hbefore, ?_, hlast⟩, hstep c hlast b rfl, rfl⟩
    have hhead := h.head
    rw [List.head?_append] at hhead
    cases before with
    | nil => cases hlast
    | cons d rest => exact hhead

theorem of_transGen (h : TransGen g.Joins a b) (hway : g.Way c a way) :
    ∃ longer, g.Way c b longer ∧ way.length < longer.length := by
  induction h with
  | single hb => exact ⟨_, hway.concat hb, by simp⟩
  | tail _ hb ih =>
    obtain ⟨longer, hlonger, hlt⟩ := ih
    exact ⟨_, hlonger.concat hb, by rw [List.length_append]; omega⟩

/-- A way passes only what can be reached. -/
theorem reaches (h : g.Way a b way) {x : String} (hx : x ∈ way) : g.Reaches a x := by
  cases way with
  | nil => exact absurd hx List.not_mem_nil
  | cons a' rest =>
    obtain rfl := Option.some.inj h.head
    have hpairs := (h.linked.imp fun _ _ => TransGen.single).pairwise
    rcases List.mem_cons.mp hx with rfl | hx
    · exact .refl
    · exact ((List.pairwise_cons.mp hpairs).1 x hx).to_reflTransGen

/-- A way that passes a node twice reaches a cycle. -/
theorem nodup (h : g.Way a b way) (hcycle : ¬ g.ReachesCycle a) : way.Nodup := by
  have hpairs : way.Pairwise (TransGen g.Joins) :=
    (h.linked.imp fun _ _ => TransGen.single).pairwise
  refine hpairs.imp_of_mem fun hx hy hxy he => ?_
  subst he
  exact hcycle ⟨_, h.reaches hx, hxy⟩

end Way

theorem Reaches.mem_ids (h : g.Reaches a b) (ha : a ∈ g.ids) : b ∈ g.ids := by
  rcases h.cases_tail with rfl | ⟨c, -, hc⟩
  · exact ha
  · exact hc.mem_ids

/-- No more nodes are passed than there are, unless a cycle can be reached. -/
theorem Way.length_le {way : List String} (h : g.Way a b way) (ha : a ∈ g.ids)
    (hcycle : ¬ g.ReachesCycle a) : way.length ≤ g.ids.length :=
  (List.subperm_of_subset (h.nodup hcycle) fun _ hx => (h.reaches hx).mem_ids ha).length_le

theorem exists_way (h : g.Reaches a b) : ∃ way, g.Way a b way := by
  induction h with
  | refl => exact ⟨_, .start a⟩
  | tail _ hc ih =>
    obtain ⟨way, hway⟩ := ih
    exact ⟨_, hway.concat hc⟩

/-- To a cycle there are ways of any length. -/
theorem ReachesCycle.exists_longer (h : g.ReachesCycle a) (n : Nat) :
    ∃ b way, g.Way a b way ∧ n < way.length := by
  obtain ⟨c, hreach, hc⟩ := h
  have hways : ∃ way, g.Way a c way ∧ n < way.length := by
    induction n with
    | zero =>
      obtain ⟨way, hway⟩ := exists_way hreach
      obtain ⟨longer, hlonger, hlt⟩ := Way.of_transGen hc hway
      exact ⟨longer, hlonger, by omega⟩
    | succ n ih =>
      obtain ⟨way, hway, hn⟩ := ih
      obtain ⟨longer, hlonger, hlt⟩ := Way.of_transGen hc hway
      exact ⟨longer, hlonger, by omega⟩
  exact ⟨c, hways⟩

theorem ReachesCycle.mem_ids (h : g.ReachesCycle a) : a ∈ g.ids := by
  obtain ⟨c, hreach, hc⟩ := h
  rcases hreach.cases_head with rfl | ⟨b, hb, -⟩
  · exact mem_ids_of_transGen hc
  · exact hb.source_mem_ids

/-! ## Raising depths -/

/-- The depths after those of some nodes have been raised to `c`, within the limit. -/
def raised (limit c : Nat) (xs : List String) (f : String → Option Nat) (k : String) : Option Nat :=
  if c ≤ limit ∧ k ∈ xs ∧ isBelow (f k) c then some c else f k

theorem isBelow_some {d c : Nat} : isBelow (some d) c = true ↔ d < c := by simp [isBelow]

theorem max_of_isBelow {d : Option Nat} {c : Nat} (h : isBelow d c = true) :
    max (d.getD 0) c = c := by
  cases d with
  | none => exact Nat.zero_max c
  | some d => exact Nat.max_eq_right (Nat.le_of_lt (isBelow_some.mp h))

theorem relax_table {keys : List String} {x : String} (hx : x ∈ keys) (limit c : Nat)
    (f : String → Option Nat) (queue : List String) :
    relax limit c (keys.map fun k => (k, f k), queue) x =
      (keys.map fun k => (k, raised limit c [x] f k),
        queue ++ if c ≤ limit ∧ isBelow (f x) c then [x] else []) := by
  simp only [relax, lookup_map_keys, if_pos hx, Bool.and_eq_true, decide_eq_true_eq]
  by_cases hb : isBelow (f x) c = true ∧ c ≤ limit
  · rw [if_pos hb, if_pos hb.symm, raise, List.map_map]
    congr 2
    funext k
    by_cases hk : k = x
    · subst hk
      simp [raised, hb, max_of_isBelow hb.1]
    · simp [raised, hk]
  · rw [if_neg hb, if_neg (mt And.symm hb), List.append_nil]
    congr 2
    funext k
    by_cases hk : k = x
    · subst hk
      have hraised : ¬ (c ≤ limit ∧ isBelow (f k) c = true) := mt And.symm hb
      simp [raised, hraised]
    · simp [raised, hk]

/-- Raising depths never lowers one. -/
theorem le_raised {limit c e : Nat} {xs : List String} {f : String → Option Nat} {k : String}
    (h : f k = some e) :
    ∃ e', raised limit c xs f k = some e' ∧ e ≤ e' := by
  by_cases hk : c ≤ limit ∧ k ∈ xs ∧ isBelow (f k) c = true
  · have hlt : e < c := isBelow_some.mp (h ▸ hk.2.2)
    exact ⟨c, if_pos hk, Nat.le_of_lt hlt⟩
  · exact ⟨e, (if_neg hk).trans h, Nat.le_refl e⟩

/-- What is raised twice to one depth is raised once. -/
theorem raised_raised (limit c : Nat) (x : String) (xs : List String) (f : String → Option Nat) :
    raised limit c xs (raised limit c [x] f) = raised limit c (x :: xs) f := by
  funext k
  rw [raised]
  by_cases hk : c ≤ limit ∧ k ∈ [x] ∧ isBelow (f k) c = true
  · have hone : raised limit c [x] f k = some c := if_pos hk
    have hboth : raised limit c (x :: xs) f k = some c :=
      if_pos ⟨hk.1, List.mem_cons.mpr (.inl (List.mem_singleton.mp hk.2.1)), hk.2.2⟩
    rw [hone, hboth, ite_self]
  · have hone : raised limit c [x] f k = f k := if_neg hk
    rw [hone, raised]
    refine if_congr ⟨fun h => ⟨h.1, List.mem_cons_of_mem _ h.2.1, h.2.2⟩, fun h => ?_⟩ rfl rfl
    refine ⟨h.1, (List.mem_cons.mp h.2.1).resolve_left fun he => hk ?_, h.2.2⟩
    exact ⟨h.1, List.mem_singleton.mpr he, h.2.2⟩

theorem foldl_relax {keys : List String} (xs : List String) (hxs : xs ⊆ keys) (limit c : Nat)
    (f : String → Option Nat) (queue : List String) : ∃ new : List String,
    xs.foldl (relax limit c) (keys.map fun k => (k, f k), queue) =
      (keys.map fun k => (k, raised limit c xs f k), queue ++ new) ∧
    ∀ y, y ∈ new ↔ c ≤ limit ∧ y ∈ xs ∧ isBelow (f y) c := by
  induction xs generalizing f queue with
  | nil => exact ⟨[], by simp [raised], by simp⟩
  | cons x xs ih =>
    obtain ⟨hx, hxs⟩ := List.cons_subset.mp hxs
    rw [List.foldl_cons, relax_table hx]
    obtain ⟨new, hfold, hmem⟩ := ih hxs (raised limit c [x] f)
      (queue ++ if c ≤ limit ∧ isBelow (f x) c then [x] else [])
    refine ⟨(if c ≤ limit ∧ isBelow (f x) c then [x] else []) ++ new, ?_, fun y => ?_⟩
    · rw [hfold, raised_raised, List.append_assoc]
    · rw [List.mem_append, hmem y]
      by_cases hy : y = x
      · subst hy
        by_cases hb : c ≤ limit ∧ isBelow (f y) c = true
        · simp [hb]
        · have hone : raised limit c [y] f y = f y := if_neg fun h => hb ⟨h.1, h.2.2⟩
          rw [if_neg hb, hone]
          refine iff_of_false ?_ fun h => hb ⟨h.1, h.2.2⟩
          rintro (h | h)
          · exact List.not_mem_nil h
          · exact hb ⟨h.1, h.2.2⟩
      · simp [raised, hy]

/-! ## The search for the greatest depth -/

/-- A moment of the search: `f` gives the depths found so far. -/
structure Relaxing (g : Graph) (entry : String) (limit : Nat) (f : String → Option Nat)
    (queue : List String) (best : Nat) : Prop where
  found : ∀ k d, f k = some d → d ≤ limit ∧ ∃ way, g.Way entry k way ∧ way.length = d + 1
  queued : ∀ k ∈ queue, ∃ d, f k = some d
  entered : ∃ d, f entry = some d
  /-- A node out of the queue has been counted, and what it leads to is deeper. -/
  relaxed : ∀ k d, f k = some d → k ∈ queue ∨ d ≤ best ∧
    ∀ s, g.Joins k s → d + 1 ≤ limit → ∃ e, f s = some e ∧ d + 1 ≤ e
  reached : best ≤ limit ∧ ∃ k way, g.Way entry k way ∧ way.length = best + 1

namespace Relaxing

variable {limit best d : Nat} {f : String → Option Nat} {queue : List String}

theorem start (g : Graph) (entry : String) (limit : Nat) :
    g.Relaxing entry limit (fun id => if id = entry then some 0 else none) [entry] 0 := by
  refine ⟨fun k d hd => ?_, fun k hk => ?_, ⟨0, if_pos rfl⟩, fun k d hd => ?_,
    Nat.zero_le _, entry, _, .start entry, rfl⟩
  · obtain ⟨rfl, hzero⟩ := Option.ite_none_right_eq_some.mp hd
    obtain rfl := Option.some.inj hzero
    exact ⟨Nat.zero_le _, _, .start k, rfl⟩
  · obtain rfl := List.mem_singleton.mp hk
    exact ⟨0, if_pos rfl⟩
  · obtain ⟨rfl, -⟩ := Option.ite_none_right_eq_some.mp hd
    exact .inl List.mem_cons_self

/-- The first node of the queue is worked off. -/
theorem step {new : List String} (h : g.Relaxing entry limit f (id :: queue) best)
    (hid : f id = some d)
    (hnew : ∀ y, y ∈ new ↔ d + 1 ≤ limit ∧ y ∈ g.successors id ∧ isBelow (f y) (d + 1)) :
    g.Relaxing entry limit (raised limit (d + 1) (g.successors id) f) (queue ++ new)
      (max best d) := by
  have hraised : ∀ k e, raised limit (d + 1) (g.successors id) f k = some e →
      (k ∈ new ∧ e = d + 1) ∨ f k = some e := by
    intro k e he
    by_cases hk : d + 1 ≤ limit ∧ k ∈ g.successors id ∧ isBelow (f k) (d + 1) = true
    · exact .inl ⟨(hnew k).mpr hk, (Option.some.inj ((if_pos hk).symm.trans he)).symm⟩
    · exact .inr ((if_neg hk).symm.trans he)
  obtain ⟨hlimit, way, hway, hlength⟩ := h.found id d hid
  refine ⟨fun k e he => ?_, fun k hk => ?_, ?_, fun k e he => ?_, ?_⟩
  · rcases hraised k e he with ⟨hk, rfl⟩ | hk
    · obtain ⟨hc, hsucc, -⟩ := (hnew k).mp hk
      exact ⟨hc, _, hway.concat (mem_successors.mp hsucc), by simp [hlength]⟩
    · exact h.found k e hk
  · rcases List.mem_append.mp hk with hk | hk
    · obtain ⟨e, he⟩ := h.queued k (List.mem_cons_of_mem _ hk)
      obtain ⟨e', he', -⟩ := le_raised he
      exact ⟨e', he'⟩
    · exact ⟨d + 1, if_pos ((hnew k).mp hk)⟩
  · obtain ⟨e, he⟩ := h.entered
    obtain ⟨e', he', -⟩ := le_raised he
    exact ⟨e', he'⟩
  · rcases hraised k e he with ⟨hk, -⟩ | hk
    · exact .inl (List.mem_append_right _ hk)
    · rcases h.relaxed k e hk with hqueue | ⟨hbest, hdeeper⟩
      · rcases List.mem_cons.mp hqueue with rfl | hqueue
        · -- The node itself: what it leads to has just been raised, or was deep enough.
          obtain rfl := Option.some.inj (hid.symm.trans hk)
          refine .inr ⟨Nat.le_max_right _ _, fun s hs hc => ?_⟩
          by_cases hb : isBelow (f s) (d + 1) = true
          · exact ⟨d + 1, if_pos ⟨hc, mem_successors.mpr hs, hb⟩, Nat.le_refl _⟩
          · cases hfs : f s with
            | none => exact absurd (by rw [hfs]; rfl) hb
            | some e =>
              obtain ⟨e', he', hle⟩ := le_raised hfs
              rw [hfs, isBelow_some] at hb
              exact ⟨e', he', by omega⟩
        · exact .inl (List.mem_append_left _ hqueue)
      · refine .inr ⟨Nat.le_trans hbest (Nat.le_max_left _ _), fun s hs hc => ?_⟩
        obtain ⟨e₁, he₁, hle₁⟩ := hdeeper s hs hc
        obtain ⟨e₂, he₂, hle₂⟩ := le_raised he₁
        exact ⟨e₂, he₂, Nat.le_trans hle₁ hle₂⟩
  · rcases Nat.le_total d best with hle | hle
    · rw [Nat.max_eq_left hle]
      exact h.reached
    · rw [Nat.max_eq_right hle]
      exact ⟨hlimit, id, way, hway, hlength⟩

/-- The search ends with an empty queue. -/
theorem deepest_spec (h : g.Relaxing entry limit f queue best) (hqueue : queue ⊆ g.ids) :
    ∃ f', g.Relaxing entry limit f' []
      (deepest g.successors limit (g.ids.map fun k => (k, f k)) queue best) := by
  generalize hdepths : (g.ids.map fun k => (k, f k)) = depths
  fun_induction deepest g.successors limit depths queue best generalizing f with
  | case1 => exact ⟨f, h⟩
  | case2 depths best id rest depth state =>
    rename_i ih
    subst hdepths
    obtain ⟨hid, hrest⟩ := List.cons_subset.mp hqueue
    obtain ⟨d, hd⟩ := h.queued id List.mem_cons_self
    have hdepth : depth = d := by
      simp only [depth, lookup_map_keys, if_pos hid, hd, Option.getD_some]
    have hsub : g.successors id ⊆ g.ids := fun b hb => (mem_successors.mp hb).mem_ids
    obtain ⟨new, hfold, hnew⟩ := foldl_relax (g.successors id) hsub limit (d + 1) f rest
    have hstate : state = (g.ids.map fun k => (k, raised limit (d + 1) (g.successors id) f k),
        rest ++ new) := by
      rw [← hfold, ← hdepth]
    rw [hstate, hdepth] at ih ⊢
    refine ih (h.step hd hnew) (fun y hy => ?_) rfl
    rcases List.mem_append.mp hy with hy | hy
    · exact hrest hy
    · exact hsub ((hnew y).mp hy).2.1

/-- Below the limit, no way is longer than the depth that was found. -/
theorem length_le (h : g.Relaxing entry limit f [] best) (hbest : best < limit)
    {way : List String} (hway : g.Way entry b way) : way.length ≤ best + 1 := by
  have hbound : ∃ d, f b = some d ∧ way.length ≤ d + 1 := by
    induction hn : way.length generalizing b way with
    | zero =>
      obtain ⟨before, rfl⟩ := List.getLast?_eq_some_iff.mp hway.last
      simp at hn
    | succ n ih =>
      rcases hway.cases_last with ⟨rfl, rfl⟩ | ⟨c, before, hbefore, hstep, rfl⟩
      · obtain ⟨d, hd⟩ := h.entered
        exact ⟨d, hd, by simp at hn; omega⟩
      · obtain ⟨d, hd, hle⟩ := ih hbefore (by simpa using hn)
        obtain ⟨hdbest, hdeeper⟩ := (h.relaxed c d hd).resolve_left List.not_mem_nil
        obtain ⟨e, he, hde⟩ := hdeeper b hstep (by omega)
        exact ⟨e, he, by omega⟩
  obtain ⟨d, hd, hle⟩ := hbound
  have hdbest := ((h.relaxed b d hd).resolve_left List.not_mem_nil).1
  omega

end Relaxing

/-! ## The depth of a graph -/

theorem successors_of_notMem (h : a ∉ g.ids) : g.successors a = [] :=
  List.eq_nil_iff_forall_not_mem.mpr fun _ hb => h (mem_successors.mp hb).source_mem_ids

/-- Below what is no node there is nothing. -/
theorem depthBelow_of_notMem (h : entry ∉ g.ids) : g.depthBelow entry = 0 := by
  rw [depthBelow, deepest, lookup_map_keys, if_neg h, successors_of_notMem h]
  rw [List.foldl_nil, deepest]
  rfl

/-- The search below a node ends below the limit, and then no way is longer than the depth, or at
the limit, and then a cycle can be reached. -/
theorem depthBelow_cases (h : entry ∈ g.ids) :
    (g.depthBelow entry < g.ids.length ∧
      (∃ b way, g.Way entry b way ∧ way.length = g.depthBelow entry + 1) ∧
      ∀ b way, g.Way entry b way → way.length ≤ g.depthBelow entry + 1) ∨
    g.depthBelow entry = g.ids.length ∧ g.ReachesCycle entry := by
  have hlimit : max g.nodes.length 1 = g.ids.length := by
    have hpos := List.length_pos_of_mem h
    rw [ids, List.length_map] at hpos ⊢
    omega
  obtain ⟨f, hf⟩ := (Relaxing.start g entry g.ids.length).deepest_spec
    (List.cons_subset.mpr ⟨h, List.nil_subset _⟩)
  have hdepth : deepest g.successors g.ids.length
      (g.ids.map fun id => (id, if id = entry then some 0 else none)) [entry] 0 =
      g.depthBelow entry := by
    rw [depthBelow, hlimit]
  rw [hdepth] at hf
  obtain ⟨hle, b, way, hway, hlength⟩ := hf.reached
  rcases Nat.lt_or_eq_of_le hle with hlt | heq
  · exact .inl ⟨hlt, ⟨b, way, hway, hlength⟩, fun b way hway => hf.length_le hlt hway⟩
  · refine .inr ⟨heq, ?_⟩
    by_contra hcycle
    have := hway.length_le h hcycle
    omega

/-- Without a cycle, the depth is the length of the longest path. -/
theorem isGreatest_depthBelow (h : ¬ g.ReachesCycle entry) :
    IsGreatest { n | ∃ b way, g.Way entry b way ∧ way.Nodup ∧ way.length = n + 1 }
      (g.depthBelow entry) := by
  by_cases hentry : entry ∈ g.ids
  · rcases depthBelow_cases hentry with ⟨-, ⟨b, way, hway, hlength⟩, hbound⟩ | ⟨-, hcycle⟩
    · refine ⟨⟨b, way, hway, hway.nodup h, hlength⟩, ?_⟩
      rintro n ⟨c, other, hother, -, hn⟩
      have := hbound c other hother
      omega
    · exact absurd hcycle h
  · rw [depthBelow_of_notMem hentry]
    refine ⟨⟨entry, _, .start entry, List.nodup_singleton entry, rfl⟩, ?_⟩
    rintro n ⟨b, way, hway, -, hn⟩
    -- A way of more than its start would leave it by an edge, between nodes.
    cases way with
    | nil => cases hway.head
    | cons a rest =>
      obtain rfl := Option.some.inj hway.head
      cases rest with
      | nil => exact Nat.le_of_eq (Nat.succ.inj hn).symm
      | cons c rest => exact absurd hway.linked.rel.source_mem_ids hentry

/-- A cycle that can be reached makes the depth the number of nodes. -/
theorem depthBelow_of_reachesCycle (h : g.ReachesCycle entry) :
    g.depthBelow entry = g.ids.length := by
  rcases depthBelow_cases h.mem_ids with ⟨-, -, hbound⟩ | ⟨heq, -⟩
  · obtain ⟨b, way, hway, hlong⟩ := h.exists_longer (g.depthBelow entry + 1)
    have := hbound b way hway
    omega
  · exact heq

theorem depthBelow_eq_length_iff (hids : g.ids ≠ []) :
    g.depthBelow entry = g.ids.length ↔ g.ReachesCycle entry := by
  refine ⟨fun heq => ?_, depthBelow_of_reachesCycle⟩
  have hpos := List.length_pos_iff.mpr hids
  by_cases hentry : entry ∈ g.ids
  · rcases depthBelow_cases hentry with ⟨hlt, -⟩ | ⟨-, hcycle⟩
    · omega
    · exact hcycle
  · rw [depthBelow_of_notMem hentry] at heq
    omega

/-- The number of distinct nodes. -/
theorem length_ids_make (nodes : List Node) (edges : List Edge) :
    (make nodes edges).ids.length = (nodes.map (·.id)).toFinset.card := by
  rw [← List.toFinset_card_of_nodup (ids_nodup nodes edges), ids_make]
  congr 1
  ext id
  rw [List.mem_toFinset, List.mem_toFinset, List.mem_eraseDups]

/-- **The depth is exact.** Below any entry it is the number of edges of the longest path, as long as
no cycle can be reached, and the number of distinct nodes if one can. So in a graph that has nodes,
and in every graph that is planned, it is the number of nodes just if a cycle can be reached from
the entry. -/
theorem depthBelow_exact (nodes : List Node) (edges : List Edge) :
    (∀ entry, ¬ (make nodes edges).ReachesCycle entry →
      IsGreatest { n | ∃ b way, (make nodes edges).Way entry b way ∧ way.Nodup ∧
        way.length = n + 1 } ((make nodes edges).depthBelow entry)) ∧
    (∀ entry, (make nodes edges).ReachesCycle entry →
      (make nodes edges).depthBelow entry = (nodes.map (·.id)).toFinset.card) ∧
    (nodes ≠ [] → ∀ entry, (make nodes edges).depthBelow entry =
      (nodes.map (·.id)).toFinset.card ↔ (make nodes edges).ReachesCycle entry) ∧
    ∀ p, (make nodes edges).plan? = some p →
      (p.depth = (nodes.map (·.id)).toFinset.card ↔ (make nodes edges).ReachesCycle p.entry) := by
  rw [← length_ids_make nodes edges]
  refine ⟨fun entry => isGreatest_depthBelow, fun entry => depthBelow_of_reachesCycle,
    fun hnodes entry => depthBelow_eq_length_iff ?_, fun p hp => ?_⟩
  · obtain ⟨n, hn⟩ := List.exists_mem_of_ne_nil nodes hnodes
    refine List.ne_nil_of_mem (a := n.id) ?_
    rw [ids_make, List.mem_eraseDups]
    exact List.mem_map_of_mem hn
  · obtain ⟨entry, hentry, rfl⟩ := Option.map_eq_some_iff.mp hp
    obtain ⟨n, hn, -⟩ := Option.map_eq_some_iff.mp hentry
    refine depthBelow_eq_length_iff (List.ne_nil_of_mem (a := n.id) ?_)
    exact List.mem_map_of_mem (List.mem_of_find?_eq_some hn)

/-- A short cut beside a longer way, a node given twice, and a cycle that the entry does not reach. -/
def shortcutNodes : List Node :=
  [{ id := "t", kind := "trigger-manual" }, { id := "a", kind := "first" },
    { id := "b", kind := "second" }, { id := "x", kind := "third" }, { id := "a", kind := "last" }]

def shortcutEdges : List Edge :=
  [{ source := "t", target := "b" }, { source := "t", target := "a" },
    { source := "a", target := "b" }, { source := "x", target := "x" },
    { source := "x", target := "t" }]

theorem shortcut_depth :
    IsGreatest { n | ∃ b way, (make shortcutNodes shortcutEdges).Way "t" b way ∧ way.Nodup ∧
      way.length = n + 1 } 2 ∧
    (make shortcutNodes ({ source := "b", target := "a" } :: shortcutEdges)).depthBelow "t" = 4 ∧
    ∃ p, (make shortcutNodes shortcutEdges).plan? = some p ∧ p.depth ≠ 4 := by
  obtain ⟨hlongest, -, -, hplan⟩ := depthBelow_exact shortcutNodes shortcutEdges
  obtain ⟨-, hcycle, -⟩ :=
    depthBelow_exact shortcutNodes ({ source := "b", target := "a" } :: shortcutEdges)
  have hspared : ¬ (make shortcutNodes shortcutEdges).ReachesCycle "t" :=
    of_decide_eq_false (by cbv)
  have hcard : (shortcutNodes.map (·.id)).toFinset.card = 4 := by decide
  refine ⟨?_, ?_, ?_⟩
  · have hdepth : (make shortcutNodes shortcutEdges).depthBelow "t" = 2 := by cbv
    exact hdepth ▸ hlongest "t" hspared
  · rw [hcycle "t" (of_decide_eq_true (by cbv)), hcard]
  · obtain ⟨p, hp⟩ := Option.isSome_iff_exists.mp
      (show (make shortcutNodes shortcutEdges).plan?.isSome by cbv)
    have hentry : (make shortcutNodes shortcutEdges).plan?.map (·.entry) = some "t" := by cbv
    rw [hp] at hentry
    have hentry : p.entry = "t" := Option.some.inj hentry
    refine ⟨p, hp, fun hdepth => hspared ?_⟩
    rw [← hentry]
    exact (hplan p hp).mp (hdepth.trans hcard.symm)

end Workflow.Graph
