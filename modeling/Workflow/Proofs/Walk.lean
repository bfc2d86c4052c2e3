/-
Facts about walks (`Handler.walk`): one equation for the step that a walk
enters (`walk_enter`), one induction over the path (`walk_induct`), and where
the blocks of a walk come from (`mem_walk`, `walk_reaches`).

What a walk does with a step depends on the step alone; `Step.form` says once
which of the cases it is, and `stepBlocks` what is made of it when what
follows is given. All later proofs look at these and not at the walk itself.
-/
import Mathlib.Logic.Relation
import Workflow.Handler.Flow

namespace Workflow

/-- What a walk makes of a step. -/
inductive Step.Form where
  | trigger
  | unsupported
  | action
  | branch
  | subject
  | select (cases : List String)
  | loop
  | join
  | unreadable (fault : Fault)
  deriving DecidableEq

/-- The form of a step. -/
def Step.form (s : Step) : Step.Form :=
  if s.isTrigger then .trigger
  else if s.structural then
    match Structure.ofKind? s.kind with
    | some .branch => .branch
    | some .select =>
      match s.cases with
      | .error f => .unreadable f
      | .ok [] => .subject
      | .ok cases => .select cases
    | some .loop => .loop
    | some .join => .join
    | none => .unsupported
  else .action

theorem Step.form_eq_join {s : Step} (h : s.form = .join) :
    Structure.ofKind? s.kind = some .join := by
  unfold Step.form at h
  split at h
  · simp at h
  split at h
  · split at h
    case h_2 => split at h <;> simp at h
    case h_4 hk => exact hk
    all_goals simp at h
  · simp at h

/-- A relation that goes down in some numbering comes back to nothing. -/
theorem not_transGen_of_rank {α : Type} {r : α → α → Prop} (rank : α → Nat)
    (h : ∀ a b, r a b → rank b < rank a) (a : α) : ¬ Relation.TransGen r a a := by
  have hlt : ∀ {a b}, Relation.TransGen r a b → rank b < rank a := by
    intro a b hab
    induction hab with
    | single h' => exact h _ _ h'
    | tail _ h' ih => exact Nat.lt_trans (h _ _ h') ih
  exact fun hcycle => Nat.lt_irrefl _ (hlt hcycle)

namespace Plan

/-- An edge leads from a step that exists to a node. -/
def Leads (p : Plan) (a b : String) : Prop :=
  (p.step? a).isSome ∧ ∃ e ∈ p.edges, e.source = a ∧ e.target = b

theorem step?_id {p : Plan} {id : String} {s : Step} (h : p.step? id = some s) : s.id = id := by
  simpa using List.find?_some h

theorem leads_nextTarget {p : Plan} {id t : String} {s : Step} (hs : p.step? id = some s)
    (ht : p.nextTarget id = some t) : p.Leads id t := by
  obtain ⟨e, he, rfl⟩ := Option.map_eq_some_iff.mp ht
  have hsource := List.find?_some he
  exact ⟨by simp [hs], e, List.mem_of_find?_eq_some he, by simpa using hsource, rfl⟩

theorem leads_portTarget {p : Plan} {id port t : String} {s : Step} (hs : p.step? id = some s)
    (ht : p.portTarget id port = some t) : p.Leads id t := by
  obtain ⟨e, he, rfl⟩ := Option.map_eq_some_iff.mp ht
  have hsource := List.find?_some he
  simp only [Bool.and_eq_true, decide_eq_true_eq] at hsource
  exact ⟨by simp [hs], e, List.mem_of_find?_eq_some he, hsource.1, rfl⟩

end Plan

namespace Handler

open Relation

variable {p : Plan} {path : List String} {id : String} {s : Step}

/-- The blocks of a step, given the blocks from each node on that it leads to. -/
def stepBlocks (p : Plan) (s : Step) (next : Option String → List Block) : List Block :=
  match s.form with
  | .trigger => .trigger s :: next (p.nextTarget s.id)
  | .unsupported => .unsupported s :: next (p.nextTarget s.id)
  | .action => .action s :: next (p.nextTarget s.id)
  | .branch => [.branch s (next (p.portTarget s.id "true")) (next (p.portTarget s.id "false"))]
  | .subject => .subject s :: next (p.portTarget s.id "default")
  | .select cases =>
    [.select s (cases.map fun c => (c, next (p.portTarget s.id c)))
      (next (p.portTarget s.id "default"))]
  | .loop => .loop s (next (p.portTarget s.id "body")) :: next (p.portTarget s.id "done")
  | .join => [.join s]
  | .unreadable f => [.unreadable s f]

/-- The nodes that a walk goes on to from a step. It does not go on from a join. -/
def stepTargets (p : Plan) (s : Step) : List (Option String) :=
  match s.form with
  | .trigger | .unsupported | .action => [p.nextTarget s.id]
  | .branch => [p.portTarget s.id "true", p.portTarget s.id "false"]
  | .subject => [p.portTarget s.id "default"]
  | .select cases => cases.map (p.portTarget s.id) ++ [p.portTarget s.id "default"]
  | .loop => [p.portTarget s.id "body", p.portTarget s.id "done"]
  | .join | .unreadable _ => []

@[simp] theorem walk_none : walk p path none = [] := by rw [walk]

theorem walk_mem (h : id ∈ path) : walk p path (some id) = [] := by rw [walk]; simp [h]

theorem walk_missing (h : p.step? id = none) : walk p path (some id) = [] := by
  rw [walk]
  split
  · rfl
  · split
    · rfl
    · next hs => simp [h] at hs

theorem walk_enter (hp : id ∉ path) (hs : p.step? id = some s) :
    walk p path (some id) = stepBlocks p s (walk p (id :: path)) := by
  have hid := Plan.step?_id hs
  subst hid
  rw [walk]
  simp only [hp, dite_false]
  split
  · next h => simp [hs] at h
  next s' h =>
  obtain rfl : s = s' := by simpa [hs] using h
  unfold stepBlocks Step.form
  by_cases ht : s.isTrigger
  · simp [ht]
  by_cases hst : s.structural
  · cases hk : Structure.ofKind? s.kind with
    | none => simp [ht, hst]
    | some kind =>
      cases kind with
      | branch | loop | join => simp [ht, hst]
      | select =>
        cases hc : s.cases with
        | error f => simp [ht, hst]
        | ok cases => cases cases <;> simp [ht, hst]
  · simp [ht, hst]

/-- What holds where a walk stops, and of a step whenever it holds after the step, holds of every
walk: the path grows with every step, within the steps of the plan. -/
theorem walk_induct (p : Plan) {motive : List String → Option String → Prop}
    (stop : ∀ path start, walk p path start = [] → motive path start)
    (enter : ∀ path id s, id ∉ path → p.step? id = some s → (∀ t, motive (id :: path) t) →
      motive path (some id)) (path : List String) (start : Option String) : motive path start := by
  match start with
  | none => exact stop path none walk_none
  | some id =>
    if hp : id ∈ path then exact stop path _ (walk_mem hp)
    else
      match hs : p.step? id with
      | none => exact stop path _ (walk_missing hs)
      | some s => exact enter path id s hp hs fun t => walk_induct p stop enter (id :: path) t
termination_by (Graph.unseen (stepIds p) path).length
decreasing_by exact Graph.length_unseen_cons_lt (mem_stepIds hs) hp

theorem leads_of_mem_stepTargets (hs : p.step? id = some s) {t : String}
    (ht : some t ∈ stepTargets p s) : p.Leads id t := by
  have hid := Plan.step?_id hs
  subst hid
  unfold stepTargets at ht
  split at ht
  case h_1 | h_2 | h_3 =>
    exact Plan.leads_nextTarget hs (List.mem_singleton.mp ht).symm
  case h_6 cases _ =>
    simp only [List.mem_append, List.mem_map, List.mem_singleton] at ht
    rcases ht with ⟨c, _, hc⟩ | hd
    · exact Plan.leads_portTarget hs hc
    · exact Plan.leads_portTarget hs hd.symm
  case h_4 | h_5 | h_7 =>
    simp only [List.mem_cons, List.not_mem_nil, or_false] at ht
    first
    | exact Plan.leads_portTarget hs ht.symm
    | rcases ht with ht | ht <;> exact Plan.leads_portTarget hs ht.symm
  case h_8 | h_9 => simp at ht

/-! ## The blocks of a sequence -/

/-- All blocks of a sequence, those nested in others included. -/
def blocksIn (bs : List Block) : List Block := (visitsOf 0 bs).map (·.block)

mutual

theorem visits_map_block (n m : Nat) : ∀ b : Block,
    (b.visits n).map (·.block) = (b.visits m).map (·.block)
  | .branch s yes no => by
    simp only [Block.visits, List.map_cons, List.map_append]
    rw [visitsOf_map_block (n + 1) (m + 1) yes, visitsOf_map_block (n + 1) (m + 1) no]
  | .select s arms other => by
    simp only [Block.visits, List.map_cons, List.map_append]
    rw [visitsOfArms_map_block (n + 1) (m + 1) arms, visitsOf_map_block (n + 1) (m + 1) other]
  | .loop s body => by
    simp only [Block.visits, List.map_cons]
    rw [visitsOf_map_block (n + 1) (m + 1) body]
  | .trigger _ | .unsupported _ | .action _ | .subject _ | .join _ | .unreadable _ _ => by
    simp [Block.visits]

/-- Which blocks are visited does not depend on how deep they are nested. -/
theorem visitsOf_map_block (n m : Nat) : ∀ bs : List Block,
    (visitsOf n bs).map (·.block) = (visitsOf m bs).map (·.block)
  | [] => rfl
  | b :: rest => by
    simp only [visitsOf, List.map_append]
    rw [visits_map_block n m b, visitsOf_map_block n m rest]

theorem visitsOfArms_map_block (n m : Nat) : ∀ arms : List (String × List Block),
    (visitsOfArms n arms).map (·.block) = (visitsOfArms m arms).map (·.block)
  | [] => rfl
  | (_, body) :: rest => by
    simp only [visitsOfArms, List.map_append]
    rw [visitsOf_map_block n m body, visitsOfArms_map_block n m rest]

end

theorem map_block_visitsOf (n : Nat) (bs : List Block) :
    (visitsOf n bs).map (·.block) = blocksIn bs := visitsOf_map_block n 0 bs

theorem map_block_visitsOfArms (n : Nat) (arms : List (String × List Block)) :
    (visitsOfArms n arms).map (·.block) = arms.flatMap fun a => blocksIn a.2 := by
  induction arms with
  | nil => rfl
  | cons a rest ih => simp [visitsOfArms, map_block_visitsOf, ih]

@[simp] theorem blocksIn_nil : blocksIn [] = [] := rfl

theorem blocksIn_cons (b : Block) (rest : List Block) :
    blocksIn (b :: rest) = blocksIn [b] ++ blocksIn rest := by
  simp [blocksIn, visitsOf]

@[simp] theorem blocksIn_branch (s : Step) (yes no : List Block) :
    blocksIn [.branch s yes no] = .branch s yes no :: (blocksIn yes ++ blocksIn no) := by
  simp [blocksIn, visitsOf, Block.visits, visitsOf_map_block 1 0]

@[simp] theorem blocksIn_select (s : Step) (arms : List (String × List Block))
    (other : List Block) : blocksIn [.select s arms other] =
      .select s arms other :: ((arms.flatMap fun a => blocksIn a.2) ++ blocksIn other) := by
  rw [← map_block_visitsOfArms 1 arms, ← map_block_visitsOf 1 other]
  simp [blocksIn, visitsOf, Block.visits]

@[simp] theorem blocksIn_loop (s : Step) (body : List Block) :
    blocksIn [.loop s body] = .loop s body :: blocksIn body := by
  simp [blocksIn, visitsOf, Block.visits, visitsOf_map_block 1 0]

/-- The form of the step that a block is made of. -/
def Block.form : Block → Step.Form
  | .trigger _ => .trigger
  | .unsupported _ => .unsupported
  | .action _ => .action
  | .branch .. => .branch
  | .subject _ => .subject
  | .select _ arms _ => .select (arms.map (·.1))
  | .loop .. => .loop
  | .join _ => .join
  | .unreadable _ f => .unreadable f

/-- A block of a step is the step's own, or one of those that follow. -/
theorem mem_blocksIn_stepBlocks {next : Option String → List Block} {b : Block}
    (h : b ∈ blocksIn (stepBlocks p s next)) :
    (b.step = s ∧ b.form = s.form) ∨ ∃ t ∈ stepTargets p s, b ∈ blocksIn (next t) := by
  unfold stepBlocks at h
  unfold stepTargets
  split at h <;> simp only [*]
  case h_1 | h_2 | h_3 | h_5 =>
    rw [blocksIn_cons, List.mem_append] at h
    rcases h with h | h
    · obtain rfl := List.mem_singleton.mp h
      exact .inl ⟨rfl, rfl⟩
    · exact .inr ⟨_, List.mem_singleton_self _, h⟩
  case h_4 =>
    simp only [blocksIn_branch, List.mem_cons, List.mem_append] at h
    rcases h with rfl | h | h
    · exact .inl ⟨rfl, rfl⟩
    · exact .inr ⟨_, by simp, h⟩
    · exact .inr ⟨_, by simp, h⟩
  case h_6 cases _ =>
    simp only [blocksIn_select, List.mem_cons, List.mem_append, List.mem_flatMap, List.mem_map] at h
    rcases h with rfl | ⟨a, ⟨c, hc, rfl⟩, h⟩ | h
    · exact .inl ⟨rfl, by simp [Block.form, Function.comp_def]⟩
    · exact .inr ⟨_, List.mem_append_left _ (List.mem_map_of_mem hc), h⟩
    · exact .inr ⟨_, by simp, h⟩
  case h_7 =>
    rw [blocksIn_cons, blocksIn_loop] at h
    simp only [List.mem_append, List.mem_cons] at h
    rcases h with (rfl | h) | h
    · exact .inl ⟨rfl, rfl⟩
    · exact .inr ⟨_, by simp, h⟩
    · exact .inr ⟨_, by simp, h⟩
  case h_8 | h_9 =>
    obtain rfl := List.mem_singleton.mp h
    exact .inl ⟨rfl, rfl⟩

/-- What follows a step is among its blocks. -/
theorem mem_blocksIn_of_target {next : Option String → List Block} {t : Option String} {b : Block}
    (ht : t ∈ stepTargets p s) (h : b ∈ blocksIn (next t)) :
    b ∈ blocksIn (stepBlocks p s next) := by
  unfold stepTargets at ht
  unfold stepBlocks
  split at ht
  case h_1 | h_2 | h_3 | h_5 =>
    obtain rfl := List.mem_singleton.mp ht
    rw [blocksIn_cons]
    exact List.mem_append_right _ h
  case h_4 =>
    simp only [List.mem_cons, List.not_mem_nil, or_false] at ht
    simp only [blocksIn_branch, List.mem_cons, List.mem_append]
    rcases ht with rfl | rfl
    · exact .inr (.inl h)
    · exact .inr (.inr h)
  case h_6 =>
    simp only [List.mem_append, List.mem_map, List.mem_singleton] at ht
    simp only [blocksIn_select, List.mem_cons, List.mem_append, List.mem_flatMap, List.mem_map]
    rcases ht with ⟨c, hc, rfl⟩ | rfl
    · exact .inr (.inl ⟨_, ⟨c, hc, rfl⟩, h⟩)
    · exact .inr (.inr h)
  case h_7 =>
    simp only [List.mem_cons, List.not_mem_nil, or_false] at ht
    rw [blocksIn_cons, blocksIn_loop]
    simp only [List.mem_append, List.mem_cons]
    rcases ht with rfl | rfl
    · exact .inl (.inr h)
    · exact .inr h
  case h_8 | h_9 => simp at ht

/-- The blocks of a walk are made of steps of the plan that are not on the path, by their form. -/
theorem mem_walk {start : Option String} {b : Block} (h : b ∈ blocksIn (walk p path start)) :
    p.step? b.step.id = some b.step ∧ b.step.id ∉ path ∧ b.form = b.step.form := by
  induction path, start using walk_induct p with
  | stop path start hw => simp [hw] at h
  | enter path id s hp hs ih =>
    rw [walk_enter hp hs] at h
    rcases mem_blocksIn_stepBlocks h with ⟨rfl, hf⟩ | ⟨t, -, ht⟩
    · rw [Plan.step?_id hs]
      exact ⟨hs, hp, hf⟩
    · obtain ⟨h1, h2, h3⟩ := ih t ht
      exact ⟨h1, fun hm => h2 (List.mem_cons_of_mem _ hm), h3⟩

/-- The edges lead from the start of a walk to all its blocks. -/
theorem walk_reaches {start : Option String} {b : Block} (h : b ∈ blocksIn (walk p path start)) :
    ∃ id, start = some id ∧ ReflTransGen p.Leads id b.step.id := by
  induction path, start using walk_induct p with
  | stop path start hw => simp [hw] at h
  | enter path id s hp hs ih =>
    refine ⟨id, rfl, ?_⟩
    rw [walk_enter hp hs] at h
    rcases mem_blocksIn_stepBlocks h with ⟨rfl, -⟩ | ⟨t, ht, hb⟩
    · rw [Plan.step?_id hs]
    · obtain ⟨id', rfl, hr⟩ := ih t hb
      exact .head (leads_of_mem_stepTargets hs ht) hr

end Handler

end Workflow
