/-
The batches of a loop, and the rounds in which its body is executed for them.

The batches of a list are told without the way in which they are made (`Batched`):
put together they are the list, none is empty, and all but the last have the size
asked for. They start at the positions of a range (`batches_eq`). A loop executes
its body once for each batch, unless an error ends it before (`Rounds`).
-/
import Mathlib
import Workflow.Proofs.Moments

namespace Workflow.Handler

variable {α : Type}

/-- The parts of a list in batches of a size. -/
structure Batched (size : Nat) (items : List α) (parts : List (List α)) : Prop where
  joined : parts.flatten = items
  count : parts.length = (items.length + size - 1) / size
  filled : ∀ part ∈ parts, part ≠ [] ∧ part.length ≤ size
  full : ∀ part ∈ parts.dropLast, part.length = size

/-- What is left after the first batch of a list is one batch shorter. -/
theorem count_succ {size n : Nat} (h : 0 < size) :
    (n - (size - 1) + size - 1) / size + 1 = (n + 1 + size - 1) / size := by
  have hn : n + 1 + size - 1 = n + size := by omega
  rw [hn, Nat.add_div_right _ h, Nat.succ_inj]
  by_cases hle : size - 1 ≤ n
  · congr 1
    omega
  · rw [Nat.div_eq_of_lt (by omega), Nat.div_eq_of_lt (by omega)]

theorem Batched.cons {size : Nat} (h : 0 < size) {item : α} {rest : List α}
    {parts : List (List α)} (hb : Batched size (rest.drop (size - 1)) parts) :
    Batched size (item :: rest) ((item :: rest.take (size - 1)) :: parts) where
  joined := by rw [List.flatten_cons, hb.joined, List.cons_append, List.take_append_drop]
  count := by
    rw [List.length_cons, hb.count, List.length_drop, List.length_cons, count_succ h]
  filled := by
    intro part hpart
    rcases List.mem_cons.mp hpart with rfl | hpart
    · refine ⟨by simp, ?_⟩
      simp only [List.length_cons, List.length_take]
      omega
    · exact hb.filled part hpart
  full := by
    intro part hpart
    cases parts with
    | nil => simp at hpart
    | cons first others =>
      rw [List.dropLast_cons_of_ne_nil (by simp)] at hpart
      rcases List.mem_cons.mp hpart with rfl | hpart
      · have hcount := hb.count
        -- A further batch means that the first one is full.
        have hlong : size - 1 < rest.length := by
          by_contra hshort
          rw [List.drop_eq_nil_of_le (by omega), List.length_nil, Nat.zero_add,
            Nat.div_eq_of_lt (by omega)] at hcount
          simp at hcount
        simp only [List.length_cons, List.length_take]
        omega
      · exact hb.full part hpart

/-- The batches of a list start at every position that is a multiple of their size. -/
theorem batches_eq {size : Nat} (h : 0 < size) (position : Nat) (items : List α) :
    batches size position items = (List.range' 0 ((items.length + size - 1) / size) size).map
      fun i => (position + i, (items.drop i).take size) := by
  fun_induction batches size position items with
  | case1 => simp [Nat.div_eq_of_lt (show size - 1 < size by omega)]
  | case2 position item rest ih =>
    obtain ⟨n, rfl⟩ : ∃ n, size = n + 1 := ⟨size - 1, by omega⟩
    rw [ih, List.length_cons, ← count_succ h, List.range'_succ, List.map_cons, Nat.zero_add,
      List.length_drop]
    have hshift : ∀ m, List.range' (n + 1) m (n + 1) =
        (List.range' 0 m (n + 1)).map (n + 1 + ·) := by
      intro m
      rw [List.map_add_range', Nat.add_zero]
    refine congrArg₂ List.cons (by simp) ?_
    rw [hshift, List.map_map]
    refine List.map_congr_left fun i _ => ?_
    simp only [Function.comp_def, Nat.add_sub_cancel, List.drop_drop, Prod.mk.injEq]
    refine ⟨by omega, ?_⟩
    rw [show n + 1 + i = (n + i) + 1 by omega, List.drop_succ_cons]

theorem positions_lt {size n i : Nat} (h : 0 < size)
    (hi : i ∈ List.range' 0 ((n + size - 1) / size) size) : i < n := by
  obtain ⟨j, hj, rfl⟩ := List.mem_range'.mp hi
  have hle : size * (j + 1) ≤ n + size - 1 :=
    (Nat.mul_le_mul_left size hj).trans (Nat.mul_div_le _ _)
  rw [Nat.mul_add] at hle
  omega

/-! ## Rounds -/

theorem batchSize_pos (st : Step) : 0 < st.batchSize := by
  unfold Step.batchSize
  split
  · split <;> omega
  · exact Nat.one_pos

/-- The state in which the body of a loop is started for a batch. -/
def roundStart (st : Step) (position : Nat) (part : List Value) (s : RunState) : RunState :=
  s.bound [(st.itemVariable, batchValue st.batchSize part),
    (st.itemVariable ++ "Index", .int position)]

/-- The body of a loop is executed for one batch after the other, up to the first error. The states
in which it is started are kept. -/
inductive Rounds (st : Step) (body : Run Unit) : List (Nat × List Value) → RunState →
    List RunState → Except Raised Unit × RunState → Prop
  | done {s : RunState} : Rounds st body [] s [] (.ok (), s)
  | next {position : Nat} {part : List Value} {rest : List (Nat × List Value)} {s s' : RunState}
      {starts : List RunState} {outcome : Except Raised Unit × RunState} :
      body.run.run (roundStart st position part s) = (.ok (), s') →
      Rounds st body rest s' starts outcome →
      Rounds st body ((position, part) :: rest) s (roundStart st position part s :: starts) outcome
  | broken {position : Nat} {part : List Value} {rest : List (Nat × List Value)} {s s' : RunState}
      {e : Raised} : body.run.run (roundStart st position part s) = (.error e, s') →
      Rounds st body ((position, part) :: rest) s [roundStart st position part s] (.error e, s')

theorem run_runBatches_cons (st : Step) (body : Run Unit) (position : Nat) (part : List Value)
    (rest : List (Nat × List Value)) (s : RunState) :
    (runBatches st body ((position, part) :: rest)).run.run s =
      (do body; runBatches st body rest : Run Unit).run.run (roundStart st position part s) := rfl

/-- The value of a variable in a state. -/
def valueIn (name : String) (s : RunState) : Option Value := s.context.bindings.lookup name

theorem valueIn_roundStart (st : Step) (position : Nat) (part : List Value) (s : RunState) :
    valueIn st.itemVariable (roundStart st position part s) = some (batchValue st.batchSize part) ∧
    valueIn (st.itemVariable ++ "Index") (roundStart st position part s) =
      some (.int position) := by
  have hne : st.itemVariable ≠ st.itemVariable ++ "Index" := by
    intro h
    have hlength := congrArg String.length h
    rw [String.length_append, show "Index".length = 5 from rfl] at hlength
    omega
  simp [valueIn, roundStart, RunState.bound, Context.bind, lookup_putEntry, hne]

section

variable {st : Step} {body : Run Unit} {bs : List (Nat × List Value)} {s : RunState}
  {starts : List RunState} {outcome : Except Raised Unit × RunState}

/-- Each round has the values of its batch. -/
theorem Rounds.values (h : Rounds st body bs s starts outcome) :
    starts.map (valueIn st.itemVariable) <+:
      bs.map fun batch => some (batchValue st.batchSize batch.2) := by
  induction h with
  | done => exact List.prefix_rfl
  | next _ _ ih =>
    rw [List.map_cons, List.map_cons, (valueIn_roundStart ..).1]
    exact List.cons_prefix_cons.mpr ⟨rfl, ih⟩
  | broken =>
    rw [List.map_cons, List.map_cons, (valueIn_roundStart ..).1]
    exact List.cons_prefix_cons.mpr ⟨rfl, List.nil_prefix⟩

theorem Rounds.positions (h : Rounds st body bs s starts outcome) :
    starts.map (valueIn (st.itemVariable ++ "Index")) <+:
      bs.map fun batch => some (.int batch.1) := by
  induction h with
  | done => exact List.prefix_rfl
  | next _ _ ih =>
    rw [List.map_cons, List.map_cons, (valueIn_roundStart ..).2]
    exact List.cons_prefix_cons.mpr ⟨rfl, ih⟩
  | broken =>
    rw [List.map_cons, List.map_cons, (valueIn_roundStart ..).2]
    exact List.cons_prefix_cons.mpr ⟨rfl, List.nil_prefix⟩

/-- Without an error there is a round for every batch. -/
theorem Rounds.length (h : Rounds st body bs s starts outcome) (hok : outcome.1 = .ok ()) :
    starts.length = bs.length := by
  induction h with
  | done => rfl
  | next _ _ ih => rw [List.length_cons, List.length_cons, ih hok]
  | broken => cases hok

end

end Workflow.Handler
