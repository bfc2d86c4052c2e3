/-
Cycles, and the search that finds them (`hasCycle_iff`).

At every moment of the search a node is new, on the path, or settled: entered
before and left again. What a settled node leads to is settled too, so that no
way leads back from there and no settled node lies on a cycle. A node is left
when nothing that it leads to is still to be looked at, and nothing of it was
on the path; so it settles. `Searching` says this of a moment, and one lemma for
each move says that it stays so.
-/
import Workflow.Proofs.Embedding
import Workflow.Proofs.Reachability

namespace Workflow.Graph

open Relation

/-! ## Graphs as they are made -/

theorem map_id_putNode (n : Node) (known : List Node) :
    (putNode n known).map (·.id) =
      known.map (·.id) ++ if n.id ∈ known.map (·.id) then [] else [n.id] := by
  induction known with
  | nil => simp [putNode]
  | cons m rest ih =>
    by_cases hm : m.id = n.id
    · simp [putNode, hm]
    · have hn : n.id ≠ m.id := Ne.symm hm
      simp only [putNode, hm, if_false, List.map_cons, ih, List.mem_cons, hn, false_or,
        List.cons_append]

/-- The ids of a graph are those of its nodes, each at its first place. -/
theorem ids_make (nodes : List Node) (edges : List Edge) :
    (make nodes edges).ids = (nodes.map (·.id)).eraseDups := by
  induction nodes using List.reverseRecOn with
  | nil => rfl
  | append_singleton nodes n ih =>
    have hstep : (make (nodes ++ [n]) edges).nodes = putNode n (make nodes edges).nodes := by
      simp [make]
    rw [ids, hstep, map_id_putNode, ← ids, ih, List.map_append, List.map_singleton,
      Bundle.eraseDups_concat]

theorem ids_nodup (nodes : List Node) (edges : List Edge) : (make nodes edges).ids.Nodup := by
  rw [ids_make]
  exact Bundle.nodup_eraseDups _

/-! ## Cycles -/

variable {g : Graph} {a b c : String}

/-- A node lies on a cycle of edges between nodes. -/
def OnCycle (g : Graph) (id : String) : Prop := TransGen g.Joins id id

/-- Some edges between nodes form a cycle. -/
def Cyclic (g : Graph) : Prop := ∃ id, g.OnCycle id

theorem Joins.source_mem_ids (h : g.Joins a b) : a ∈ g.ids := by
  obtain ⟨e, -, hc, rfl, -⟩ := h
  exact has_iff.mp (Bool.and_eq_true_iff.mp hc).1

theorem mem_ids_of_transGen (h : TransGen g.Joins a b) : a ∈ g.ids := by
  obtain ⟨c, hac, -⟩ := TransGen.head'_iff.mp h
  exact hac.source_mem_ids

instance (g : Graph) (id : String) : Decidable (g.OnCycle id) :=
  decidable_of_iff _ mem_reachable_successors

/-! ## The search -/

section Search

variable {next : String → List String} {members seen roots : List String} {path : List Frame}

/-- A node has been entered and left again. -/
def Settled (seen : List String) (path : List Frame) (a : String) : Prop :=
  a ∈ seen ∧ a ∉ path.map (·.node)

/-- What the nodes of a path lead to is still to be looked at, or settled, or the next node of the
path, which is given for the first. -/
def Explored (next : String → List String) (settled : String → Prop) :
    Option String → List Frame → Prop
  | _, [] => True
  | above, f :: below =>
    (∀ b ∈ next f.node, b ∈ f.todo ∨ settled b ∨ above = some b) ∧
      Explored next settled (some f.node) below

theorem Explored.mono {settled settled' : String → Prop} {above : Option String}
    (h : Explored next settled above path) (himp : ∀ b, settled b → settled' b) :
    Explored next settled' above path := by
  induction path generalizing above with
  | nil => trivial
  | cons f below ih =>
    refine ⟨fun b hb => ?_, ih h.2⟩
    rcases h.1 b hb with hb | hb | hb
    · exact .inl hb
    · exact .inr (.inl (himp b hb))
    · exact .inr (.inr hb)

/-- A moment of the search; `above` is the node that comes next on the path, if it is known. -/
structure Searching (next : String → List String) (members seen : List String)
    (above : Option String) (path : List Frame) (roots : List String) : Prop where
  /-- Each node of the path leads to the one above it. -/
  linked : path.IsChain fun f below => f.node ∈ next below.node
  entered : ∀ f ∈ path, f.node ∈ seen ∧ f.todo ⊆ next f.node
  distinct : (path.map (·.node)).Nodup
  /-- What a settled node leads to is settled, and a settled node is on no cycle. -/
  closed : ∀ a, Settled seen path a → ∀ b ∈ next a, Settled seen path b
  acyclic : ∀ a, Settled seen path a → ¬ TransGen (fun a b => b ∈ next a) a a
  explored : Explored next (Settled seen path) above path
  /-- What has not been entered is still to be started from. -/
  covered : ∀ a ∈ members, a ∈ seen ∨ a ∈ roots

namespace Searching

variable {node s : String} {todo : List String} {below : List Frame} {above : Option String}

theorem start (next : String → List String) (members : List String) :
    Searching next members [] none [] members where
  linked := .nil
  entered := by simp
  distinct := by simp
  closed a ha := absurd ha.1 List.not_mem_nil
  acyclic a ha := absurd ha.1 List.not_mem_nil
  explored := trivial
  covered a ha := .inr ha

/-- No way leads out of what is settled. -/
theorem settled_of_transGen (h : Searching next members seen above path roots) {a b : String}
    (ha : Settled seen path a) (hab : TransGen (fun a b => b ∈ next a) a b) :
    Settled seen path b := by
  induction hab with
  | single hb => exact h.closed a ha _ hb
  | tail _ hc ih => exact h.closed _ ih _ hc

/-- The next node that the first one of the path leads to is taken up. -/
theorem take (h : Searching next members seen none (⟨node, s :: todo⟩ :: below) roots) :
    Searching next members seen (some s) (⟨node, todo⟩ :: below) roots where
  linked := by
    have hlinked := h.linked
    cases below with
    | nil => exact .singleton _
    | cons f rest => exact .cons_cons hlinked.rel hlinked.tail
  entered := by
    obtain ⟨hf, hrest⟩ := List.forall_mem_cons.mp h.entered
    exact List.forall_mem_cons.mpr
      ⟨⟨hf.1, fun b hb => hf.2 (List.mem_cons_of_mem _ hb)⟩, hrest⟩
  distinct := h.distinct
  closed := h.closed
  acyclic := h.acyclic
  explored := by
    refine ⟨fun b hb => ?_, h.explored.2⟩
    rcases h.explored.1 b hb with hb | hb | hb
    · rcases List.mem_cons.mp hb with rfl | hb
      · exact .inr (.inr rfl)
      · exact .inl hb
    · exact .inr (.inl hb)
    · cases hb
  covered := h.covered

/-- A node that is taken up is passed over if it is settled. -/
theorem pass (h : Searching next members seen (some s) path roots) (hs : Settled seen path s) :
    Searching next members seen none path roots := by
  refine { h with explored := ?_ }
  cases path with
  | nil => trivial
  | cons f below =>
    refine ⟨fun b hb => ?_, h.explored.2⟩
    rcases h.explored.1 b hb with hb | hb | hb
    · exact .inl hb
    · exact .inr (.inl hb)
    · obtain rfl := Option.some.inj hb
      exact .inr (.inl hs)

/-- A node that is taken up is entered if it is new. -/
theorem enter {roots' : List String} (h : Searching next members seen (some s) path roots)
    (hs : s ∉ seen) (hlink : ∀ f ∈ path.head?, s ∈ next f.node)
    (hroots : ∀ a ∈ roots, a = s ∨ a ∈ roots') :
    Searching next members (s :: seen) none (⟨s, next s⟩ :: path) roots' := by
  have hsettled : ∀ a, Settled (s :: seen) (⟨s, next s⟩ :: path) a ↔ Settled seen path a := by
    intro a
    simp only [Settled, List.mem_cons, List.map_cons, not_or]
    constructor
    · rintro ⟨ha, hne, hp⟩
      exact ⟨ha.resolve_left hne, hp⟩
    · rintro ⟨ha, hp⟩
      exact ⟨.inr ha, fun he => hs (he ▸ ha), hp⟩
  refine ⟨h.linked.cons hlink, ?_, ?_, ?_, ?_, ?_, ?_⟩
  · refine List.forall_mem_cons.mpr ⟨⟨List.mem_cons_self, fun b hb => hb⟩, fun f hf => ?_⟩
    exact ⟨List.mem_cons_of_mem _ (h.entered f hf).1, (h.entered f hf).2⟩
  · refine List.nodup_cons.mpr ⟨fun hm => ?_, h.distinct⟩
    obtain ⟨f, hf, hfs⟩ := List.mem_map.mp hm
    have hseen := (h.entered f hf).1
    rw [hfs] at hseen
    exact hs hseen
  · intro a ha b hb
    exact (hsettled b).mpr (h.closed a ((hsettled a).mp ha) b hb)
  · intro a ha
    exact h.acyclic a ((hsettled a).mp ha)
  · exact ⟨fun b hb => .inl hb, h.explored.mono fun b => (hsettled b).mpr⟩
  · intro a ha
    rcases h.covered a ha with ha | ha
    · exact .inl (List.mem_cons_of_mem _ ha)
    · rcases hroots a ha with rfl | ha
      · exact .inl List.mem_cons_self
      · exact .inr ha

/-- A node of which all has been looked at settles. -/
theorem leave (h : Searching next members seen none (⟨node, []⟩ :: below) roots) :
    Searching next members seen none below roots := by
  obtain ⟨hfresh, hdistinct⟩ := List.nodup_cons.mp h.distinct
  have hnode : node ∈ seen := (h.entered _ List.mem_cons_self).1
  have hkeeps : ∀ b, Settled seen (⟨node, []⟩ :: below) b → Settled seen below b := by
    intro b hb
    exact ⟨hb.1, fun hm => hb.2 (List.mem_cons_of_mem _ hm)⟩
  have hcases : ∀ a, Settled seen below a → a = node ∨ Settled seen (⟨node, []⟩ :: below) a := by
    intro a ha
    by_cases hn : a = node
    · exact .inl hn
    · exact .inr ⟨ha.1, by simpa [hn] using ha.2⟩
  have hleads : ∀ b ∈ next node, Settled seen (⟨node, []⟩ :: below) b := by
    intro b hb
    have hdone := h.explored.1 b hb
    simpa using hdone
  refine ⟨h.linked.tail, fun f hf => h.entered f (List.mem_cons_of_mem _ hf), hdistinct,
    ?_, ?_, ?_, h.covered⟩
  · intro a ha b hb
    rcases hcases a ha with rfl | ha
    · exact hkeeps b (hleads b hb)
    · exact hkeeps b (h.closed a ha b hb)
  · intro a ha
    rcases hcases a ha with rfl | ha
    · intro hcycle
      -- The first step of a way back leads to what is settled, but the node itself is not.
      obtain ⟨b, hb, hback⟩ := TransGen.head'_iff.mp hcycle
      have hsettled : Settled seen (⟨a, []⟩ :: below) a := by
        rcases reflTransGen_iff_eq_or_transGen.mp hback with rfl | hback
        · exact hleads a hb
        · exact h.settled_of_transGen (hleads b hb) hback
      exact hsettled.2 List.mem_cons_self
    · exact h.acyclic a ha
  · cases below with
    | nil => trivial
    | cons f rest =>
      obtain ⟨-, hf, hrest⟩ := h.explored
      refine ⟨fun b hb => ?_, hrest.mono hkeeps⟩
      rcases hf b hb with hb | hb | hb
      · exact .inl hb
      · exact .inr (.inl (hkeeps b hb))
      · obtain rfl := Option.some.inj hb
        exact .inr (.inl ⟨hnode, hfresh⟩)

/-- Every node of a path leads to the first one. -/
theorem leads {f : Frame} (h : Searching next members seen above (f :: below) roots) {k : Frame}
    (hk : k ∈ f :: below) : ReflTransGen (fun a b => b ∈ next a) k.node f.node := by
  have hlinked := h.linked
  clear h
  induction below generalizing f with
  | nil =>
    obtain rfl := List.mem_singleton.mp hk
    exact .refl
  | cons d rest ih =>
    rcases List.mem_cons.mp hk with rfl | hk
    · exact .refl
    · exact (ih hk hlinked.tail).tail hlinked.rel

/-- The search finds a cycle if there is one, and only then. -/
theorem searchCycle_iff (hnext : ∀ a, ∀ b ∈ next a, a ∈ members ∧ b ∈ members)
    (h : Searching next members seen none path roots) :
    searchCycle next members seen path roots = true ↔
      ∃ a, TransGen (fun a b => b ∈ next a) a a := by
  fun_induction searchCycle next members seen path roots with
  | case1 seen =>
    refine iff_of_false (by simp) ?_
    rintro ⟨a, ha⟩
    obtain ⟨b, hb, -⟩ := TransGen.head'_iff.mp ha
    have hseen : a ∈ seen := (h.covered a (hnext a b hb).1).resolve_right List.not_mem_nil
    exact h.acyclic a ⟨hseen, by simp⟩ ha
  | case2 seen root rest hroot ih =>
    have htaken : Searching next members seen (some root) [] (root :: rest) :=
      { h with explored := trivial }
    exact ih (htaken.enter hroot.2 (by simp) fun a ha => List.mem_cons.mp ha)
  | case3 seen root rest hroot ih =>
    refine ih { h with covered := fun a ha => ?_ }
    rcases h.covered a ha with hs | hr
    · exact .inl hs
    · rcases List.mem_cons.mp hr with rfl | hr
      · exact .inl (Decidable.not_not.mp fun hs => hroot ⟨ha, hs⟩)
      · exact .inr hr
  | case4 seen roots node below ih => exact ih h.leave
  | case5 seen roots node s todo below hmeets =>
    refine iff_of_true rfl ⟨s, ?_⟩
    have hsn : s ∈ next node := (h.entered _ List.mem_cons_self).2 List.mem_cons_self
    have hk : ∃ k ∈ (⟨node, s :: todo⟩ :: below : List Frame), k.node = s := by
      rcases (Bool.or_eq_true _ _).mp hmeets with hs | hs
      · exact ⟨_, List.mem_cons_self, (of_decide_eq_true hs).symm⟩
      · obtain ⟨k, hk, hs⟩ := List.any_eq_true.mp hs
        exact ⟨k, List.mem_cons_of_mem _ hk, of_decide_eq_true hs⟩
    obtain ⟨k, hk, rfl⟩ := hk
    exact TransGen.tail' (h.leads hk) hsn
  | case6 seen roots node s todo below hmeets hnew ih =>
    have hsn : s ∈ next node := (h.entered _ List.mem_cons_self).2 List.mem_cons_self
    refine ih (h.take.enter hnew.2 (fun f hf => ?_) fun a ha => .inr ha)
    obtain rfl := Option.some.inj hf
    exact hsn
  | case7 seen roots node s todo below hmeets hold ih =>
    have hsn : s ∈ next node := (h.entered _ List.mem_cons_self).2 List.mem_cons_self
    refine ih (h.take.pass ⟨?_, fun hm => hmeets ?_⟩)
    · exact Decidable.not_not.mp fun hs => hold ⟨(hnext node s hsn).2, hs⟩
    · rw [Bool.or_eq_true, List.any_eq_true]
      rcases List.mem_cons.mp hm with hm | hm
      · exact .inl (decide_eq_true hm)
      · obtain ⟨k, hk, hks⟩ := List.mem_map.mp hm
        exact .inr ⟨k, hk, decide_eq_true hks⟩

end Searching

end Search

/-- A graph is found to have a cycle just if edges between its nodes form one, wherever it lies. -/
theorem hasCycle_iff : g.hasCycle = true ↔ g.Cyclic := by
  have hnext : ∀ a, ∀ b ∈ g.successors a, a ∈ g.ids ∧ b ∈ g.ids := by
    intro a b hb
    have hjoins := mem_successors.mp hb
    exact ⟨hjoins.source_mem_ids, hjoins.mem_ids⟩
  rw [hasCycle, (Searching.start g.successors g.ids).searchCycle_iff hnext]
  simp only [mem_successors]
  rfl

end Workflow.Graph
