/-
The depth of a graph below its entry: depths are raised along edges, starting
with zero at the entry, until nothing changes. No depth exceeds the number of
nodes, so that this ends on cycles too.
-/
import Workflow.Graph.Basic

namespace Workflow.Graph

/-- The depth found so far of each node. -/
abbrev Depths := List (String × Option Nat)

def isBelow : Option Nat → Nat → Bool
  | none, _ => true
  | some d, c => d < c

def raise (depths : Depths) (id : String) (c : Nat) : Depths :=
  depths.map fun (k, d) => (k, if k = id then some (max (d.getD 0) c) else d)

/-- By how much a depth may still grow. -/
def room (limit : Nat) : Option Nat → Nat
  | none => limit + 2
  | some d => limit + 1 - d

/-- By how much all depths may still grow. -/
def totalRoom (limit : Nat) (depths : Depths) : Nat :=
  depths.foldr (fun p n => room limit p.2 + n) 0

/-- Raises the depth of a successor to `c` and queues it, if that is new and within the limit. -/
def relax (limit c : Nat) (state : Depths × List String) (id : String) : Depths × List String :=
  match state.1.lookup id with
  | some d => if isBelow d c && c ≤ limit then (raise state.1 id c, state.2 ++ [id]) else state
  | none => state

theorem room_raise_le (limit c : Nat) (d : Option Nat) :
    room limit (some (max (d.getD 0) c)) ≤ room limit d := by
  cases d <;> simp [room] <;> omega

theorem room_raise_lt {limit c : Nat} {d : Option Nat} (hd : isBelow d c = true) (hc : c ≤ limit) :
    room limit (some (max (d.getD 0) c)) < room limit d := by
  cases d <;> simp [room, isBelow] at * <;> omega

theorem totalRoom_raise_le (limit : Nat) (depths : Depths) (id : String) (c : Nat) :
    totalRoom limit (raise depths id c) ≤ totalRoom limit depths := by
  induction depths with
  | nil => simp [raise, totalRoom]
  | cons p rest ih =>
    simp only [totalRoom, raise, List.map_cons, List.foldr_cons] at *
    have : room limit (if p.1 = id then some (max (p.2.getD 0) c) else p.2) ≤ room limit p.2 := by
      split
      · exact room_raise_le limit c p.2
      · exact Nat.le_refl _
    omega

theorem totalRoom_raise_lt {limit c : Nat} {depths : Depths} {id : String} {d : Option Nat}
    (h : depths.lookup id = some d) (hd : isBelow d c = true) (hc : c ≤ limit) :
    totalRoom limit (raise depths id c) < totalRoom limit depths := by
  induction depths with
  | nil => simp at h
  | cons p rest ih =>
    obtain ⟨k, x⟩ := p
    have hle := totalRoom_raise_le limit rest id c
    simp only [totalRoom, raise, List.map_cons, List.foldr_cons] at *
    by_cases hk : k = id
    · subst hk
      simp only [List.lookup_cons, beq_self_eq_true, Option.some.injEq] at h
      subst h
      have := room_raise_lt hd hc
      simp only [if_true]
      omega
    · have hk' : (id == k) = false := by simp [Ne.symm hk]
      simp only [List.lookup_cons, hk'] at h
      have := ih h
      simp only [hk, if_false]
      omega

theorem relax_eq_or_lt (limit c : Nat) (state : Depths × List String) (id : String) :
    relax limit c state id = state ∨
      totalRoom limit (relax limit c state id).1 < totalRoom limit state.1 := by
  unfold relax
  split
  next d h =>
    split
    next hb =>
      right
      simp only [Bool.and_eq_true, decide_eq_true_eq] at hb
      exact totalRoom_raise_lt h hb.1 hb.2
    next => exact Or.inl rfl
  next => exact Or.inl rfl

theorem foldl_relax_eq_or_lt (limit c : Nat) (ids : List String) (state : Depths × List String) :
    ids.foldl (relax limit c) state = state ∨
      totalRoom limit (ids.foldl (relax limit c) state).1 < totalRoom limit state.1 := by
  induction ids generalizing state with
  | nil => exact Or.inl rfl
  | cons id rest ih =>
    rw [List.foldl_cons]
    rcases relax_eq_or_lt limit c state id with h | h
    · rw [h]; exact ih state
    · rcases ih (relax limit c state id) with h' | h'
      · rw [h']; exact Or.inr h
      · exact Or.inr (Nat.lt_trans h' h)

/-- The greatest depth met when the queued nodes, and those they raise, are worked off. -/
def deepest (next : String → List String) (limit : Nat) (depths : Depths) (queue : List String)
    (best : Nat) : Nat :=
  match queue with
  | [] => best
  | id :: rest =>
    let depth := ((depths.lookup id).getD none).getD 0
    let state := (next id).foldl (relax limit (depth + 1)) (depths, rest)
    deepest next limit state.1 state.2 (max best depth)
termination_by (totalRoom limit depths, queue.length)
decreasing_by
  rcases foldl_relax_eq_or_lt limit (depth + 1) (next id) (depths, rest) with h | h
  · rw [h]; exact Prod.Lex.right _ (by simp)
  · exact Prod.Lex.left _ _ h

/-- The depth of the graph below an entry. -/
def depthBelow (g : Graph) (entry : String) : Nat :=
  let start : Depths := g.ids.map fun id => (id, if id = entry then some 0 else none)
  deepest g.successors (max g.nodes.length 1) start [entry] 0

end Workflow.Graph
