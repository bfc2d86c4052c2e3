/-
Reachability in a finite graph given by the successors of each member.

The walk that never enters a member twice finds just the members that can be
reached (`mem_reachable`).
-/

namespace Workflow.Graph

variable {α : Type} [DecidableEq α]

def unseen (members seen : List α) : List α := members.filter (· ∉ seen)

theorem length_unseen_cons_lt {members seen : List α} {a : α} (h : a ∈ members) (hs : a ∉ seen) :
    (unseen members (a :: seen)).length < (unseen members seen).length := by
  have hsub : unseen members (a :: seen) = (unseen members seen).filter (· ≠ a) := by
    simp only [unseen, List.filter_filter]
    congr 1
    funext x
    by_cases hx : x = a <;> by_cases hxs : x ∈ seen <;> simp [hx, hxs]
  rw [hsub]
  apply List.length_filter_lt_length_iff_exists.mpr
  exact ⟨a, by simp [unseen, h, hs], by simp⟩

/-- The members reachable from the pending ones and those already seen, without entering what is
seen again. -/
def reachFrom (next : α → List α) (members : List α) (pending seen : List α) : List α :=
  match pending with
  | [] => seen
  | a :: rest =>
    if _h : a ∈ members ∧ a ∉ seen then reachFrom next members (next a ++ rest) (a :: seen)
    else reachFrom next members rest seen
termination_by ((unseen members seen).length, pending.length)
decreasing_by
  · exact Prod.Lex.left _ _ (length_unseen_cons_lt _h.1 _h.2)
  · exact Prod.Lex.right _ (by simp)

/-- The members reachable from the given ones, those included. -/
def reachable (next : α → List α) (members starts : List α) : List α :=
  reachFrom next members starts []

/-- A member can be reached from the given ones, by way of members only. -/
inductive Reachable (next : α → List α) (members starts : List α) : α → Prop
  | start {a : α} : a ∈ starts → a ∈ members → Reachable next members starts a
  | step {a b : α} : Reachable next members starts a → b ∈ next a → b ∈ members →
      Reachable next members starts b

variable {next : α → List α} {members starts pending seen : List α}

/-- The walk stays within whatever is closed under successors. -/
theorem reachFrom_within {P : α → Prop} (hnext : ∀ a, P a → ∀ b ∈ next a, b ∈ members → P b)
    (hpending : ∀ a ∈ pending, a ∈ members → P a) (hseen : ∀ a ∈ seen, P a) :
    ∀ a ∈ reachFrom next members pending seen, P a := by
  fun_induction reachFrom next members pending seen with
  | case1 seen => exact hseen
  | case2 seen a rest h ih =>
    have ha : P a := hpending a List.mem_cons_self h.1
    refine ih (fun b hb hmember => ?_) (List.forall_mem_cons.mpr ⟨ha, hseen⟩)
    rcases List.mem_append.mp hb with hb | hb
    · exact hnext a ha b hb hmember
    · exact hpending b (List.mem_cons_of_mem _ hb) hmember
  | case3 seen a rest h ih =>
    exact ih (fun b hb => hpending b (List.mem_cons_of_mem _ hb)) hseen

/-- What the walk finds holds all that it begins with, and all successors of what it finds. -/
theorem reachFrom_closed
    (h : ∀ a ∈ seen, ∀ b ∈ next a, b ∈ members → b ∈ pending ∨ b ∈ seen) :
    (∀ a ∈ seen, a ∈ reachFrom next members pending seen) ∧
      (∀ a ∈ pending, a ∈ members → a ∈ reachFrom next members pending seen) ∧
      ∀ a ∈ reachFrom next members pending seen, ∀ b ∈ next a, b ∈ members →
        b ∈ reachFrom next members pending seen := by
  fun_induction reachFrom next members pending seen with
  | case1 seen =>
    refine ⟨fun _ ha => ha, nofun, fun a ha b hb hmember => ?_⟩
    exact (h a ha b hb hmember).resolve_left List.not_mem_nil
  | case2 seen a rest hnew ih =>
    obtain ⟨hseen, hpending, hclosed⟩ := ih fun c hc b hb hmember => by
      rcases List.mem_cons.mp hc with rfl | hc
      · exact .inl (List.mem_append_left _ hb)
      · rcases h c hc b hb hmember with hb | hb
        · rcases List.mem_cons.mp hb with rfl | hb
          · exact .inr List.mem_cons_self
          · exact .inl (List.mem_append_right _ hb)
        · exact .inr (List.mem_cons_of_mem _ hb)
    refine ⟨fun c hc => hseen c (List.mem_cons_of_mem _ hc), fun c hc hmember => ?_, hclosed⟩
    rcases List.mem_cons.mp hc with rfl | hc
    · exact hseen c List.mem_cons_self
    · exact hpending c (List.mem_append_right _ hc) hmember
  | case3 seen a rest hold ih =>
    have hskip : ∀ b, b ∈ members → b ∈ a :: rest → b ∈ rest ∨ b ∈ seen := by
      intro b hmember hb
      rcases List.mem_cons.mp hb with rfl | hb
      · exact .inr (Decidable.not_not.mp fun hb => hold ⟨hmember, hb⟩)
      · exact .inl hb
    obtain ⟨hseen, hpending, hclosed⟩ := ih fun c hc b hb hmember =>
      (h c hc b hb hmember).elim (hskip b hmember) .inr
    refine ⟨hseen, fun c hc hmember => ?_, hclosed⟩
    exact (hskip c hmember hc).elim (fun hc => hpending c hc hmember) (hseen c)

theorem mem_reachable {a : α} :
    a ∈ reachable next members starts ↔ Reachable next members starts a := by
  obtain ⟨-, hstarts, hclosed⟩ := @reachFrom_closed α _ next members starts [] nofun
  constructor
  · exact reachFrom_within (fun _ ha _ hb hmember => .step ha hb hmember)
      (fun _ ha hmember => .start ha hmember) nofun a
  · intro h
    induction h with
    | start ha hmember => exact hstarts _ ha hmember
    | step _ hb hmember ih => exact hclosed _ ih _ hb hmember

end Workflow.Graph
