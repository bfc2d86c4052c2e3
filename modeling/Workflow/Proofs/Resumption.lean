/-
Resuming continuations: a run goes through no more continuations, one inside
the other, than the flow has, so that the bound of `Flow.run` is never felt.
`Flow.resume_eq` is what is left of it: to resume a join is to execute the body
of its continuation, whose own joins are resumed in the same way.
-/
import Workflow.Execution.Run
import Workflow.Proofs.Continuations

namespace Workflow.Handler

variable {p : Plan} {f : Flow} {b : Behaviour} {secrets : Value} {r₁ r₂ : String → Run Unit}

/-! ## Runs -/

theorem run_bind {α β : Type} (x : Run α) (k : α → Run β) (s : RunState) :
    (x >>= k).run.run s = match x.run.run s with
      | (.ok a, s) => (k a).run.run s
      | (.error e, s) => (.error e, s) := by
  rw [ExceptT.run_bind, StateT.run_bind]
  cases x.run.run s with
  | mk a s' => cases a <;> rfl

theorem run_get (s : RunState) : (get : Run RunState).run.run s = (.ok s, s) := rfl

theorem run_pure {α : Type} (a : α) (s : RunState) : (pure a : Run α).run.run s = (.ok a, s) := rfl

theorem run_modify (g : RunState → RunState) (s : RunState) :
    (modify g : Run Unit).run.run s = (.ok (), g s) := rfl

theorem run_ofAttempt {α : Type} (x : Attempt α) (s : RunState) :
    (Run.ofAttempt x).run.run s = (x, s) := by
  cases x <;> rfl

/-! ## Joins -/

mutual

theorem runBlock_congr : ∀ block : Block, (∀ k ∈ joinsOf [block], r₁ k = r₂ k) →
    runBlock b secrets r₁ block = runBlock b secrets r₂ block
  | .branch s yes no, h => by
    simp only [joinsOf_branch, List.mem_append] at h
    simp only [runBlock]
    rw [runBlocks_congr yes fun k hk => h k (.inl hk), runBlocks_congr no fun k hk => h k (.inr hk)]
  | .select s arms other, h => by
    simp only [joinsOf_select, List.mem_append, List.mem_flatMap] at h
    have harms : ∀ value rest,
        runArms b secrets r₁ value rest arms = runArms b secrets r₂ value rest arms :=
      fun value rest => runArms_congr value rest arms fun a ha k hk => h k (.inl ⟨a, ha, hk⟩)
    simp only [runBlock, harms]
    rw [runBlocks_congr other fun k hk => h k (.inr hk)]
  | .loop s body, h => by
    simp only [joinsOf_loop] at h
    simp only [runBlock]
    rw [runBlocks_congr body h]
  | .join s, h => by
    simp only [runBlock]
    rw [h s.id (by simp)]
  | .trigger _, _ | .unsupported _, _ | .action _, _ | .subject _, _ | .unreadable _ _, _ => by
    simp only [runBlock]

/-- What a sequence does depends only on what follows the joins in it. -/
theorem runBlocks_congr : ∀ bs : List Block, (∀ k ∈ joinsOf bs, r₁ k = r₂ k) →
    runBlocks b secrets r₁ bs = runBlocks b secrets r₂ bs
  | [], _ => by simp only [runBlocks]
  | block :: rest, h => by
    rw [joinsOf_cons] at h
    simp only [runBlocks]
    rw [runBlock_congr block fun k hk => h k (List.mem_append_left _ hk),
      runBlocks_congr rest fun k hk => h k (List.mem_append_right _ hk)]

theorem runArms_congr (value : String) (other : Run Unit) : ∀ arms : List (String × List Block),
    (∀ a ∈ arms, ∀ k ∈ joinsOf a.2, r₁ k = r₂ k) →
    runArms b secrets r₁ value other arms = runArms b secrets r₂ value other arms
  | [], _ => by simp only [runArms]
  | (case, body) :: rest, h => by
    simp only [runArms]
    rw [runBlocks_congr body (h (case, body) List.mem_cons_self),
      runArms_congr value other rest fun a ha => h a (List.mem_cons_of_mem _ ha)]

end

theorem find?_continuation (hf : flowOf p = .ok f) {c : Continuation} (hc : c ∈ f.continuations) :
    f.continuations.find? (·.join = c.join) = some c := by
  cases hd : f.continuations.find? (·.join = c.join) with
  | none => simpa using List.find?_eq_none.mp hd c hc
  | some d =>
    have hj : d.join = c.join := by simpa using List.find?_some hd
    rw [List.inj_on_of_nodup_map (Flow.joins_nodup hf) (List.mem_of_find?_eq_some hd) hc hj]

theorem resumeWithin_succ (hf : flowOf p = .ok f) {c : Continuation} (hc : c ∈ f.continuations)
    (depth : Nat) : resumeWithin f b secrets (depth + 1) c.join =
      runBlocks b secrets (resumeWithin f b secrets depth) c.body := by
  rw [resumeWithin, find?_continuation hf hc]

/-- Beyond the place of a continuation in an order in which each resumes only earlier ones, the
bound does not matter. -/
theorem resumeWithin_eq (hf : flowOf p = .ok f) {order : List String}
    (hperm : order.Perm (f.continuations.map (·.join)))
    (hbefore : ∀ m k, f.Resumes m k → order.idxOf k < order.idxOf m) (rank : Nat) :
    ∀ k ∈ order, order.idxOf k < rank → ∀ m n, order.idxOf k < m → order.idxOf k < n →
      resumeWithin f b secrets m k = resumeWithin f b secrets n k := by
  induction rank with
  | zero => intro k _ hk; omega
  | succ rank ih =>
    intro k hk hr m n hm hn
    obtain ⟨c, hc, rfl⟩ := List.mem_map.mp (hperm.mem_iff.mp hk)
    obtain ⟨m, rfl⟩ : ∃ m', m = m' + 1 := ⟨m - 1, by omega⟩
    obtain ⟨n, rfl⟩ : ∃ n', n = n' + 1 := ⟨n - 1, by omega⟩
    rw [resumeWithin_succ hf hc, resumeWithin_succ hf hc]
    refine runBlocks_congr _ fun j hj => ?_
    have hlt := hbefore _ _ ⟨c, hc, rfl, hj⟩
    have hmem : j ∈ order := hperm.mem_iff.mpr (Flow.Awaits.mem hf (.inr ⟨c, hc, hj⟩))
    exact ih j hmem (by omega) m n (by omega) (by omega)

/-- To resume a join is to execute the body of its continuation. -/
theorem Flow.resume_eq (hf : flowOf p = .ok f) {c : Continuation} (hc : c ∈ f.continuations) :
    resumeWithin f b secrets f.continuations.length c.join =
      runBlocks b secrets (resumeWithin f b secrets f.continuations.length) c.body := by
  obtain ⟨order, hperm, hbefore⟩ := Flow.exists_order hf
  have hlen : order.length = f.continuations.length := by simpa using hperm.length_eq
  have hmem : c.join ∈ order := hperm.mem_iff.mpr (List.mem_map_of_mem hc)
  have hidx := List.idxOf_lt_length_of_mem hmem
  rw [← resumeWithin_succ hf hc]
  exact resumeWithin_eq hf hperm hbefore _ _ hmem (Nat.lt_succ_self _) _ _ (by omega) (by omega)

end Workflow.Handler
