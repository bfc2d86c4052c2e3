/-
The continuations of a flow (`Handler.build`), and why none of them leads back
to itself.

`build` works off one list of visits; `Built` tells the same story by its
nesting: what is visited inside a continuation stands apart from what comes
after it (`build_append`). The order in which continuations are finished is the
order that counts. A continuation that is begun inside another is finished
before it, and one that was begun earlier and is resumed is finished already:
the joins whose continuations are still open are on the path, so that no walk
enters them (`Built.finished`).
-/
import Mathlib
import Workflow.Proofs.Naming
import Workflow.Proofs.Walk

namespace Workflow.Handler

open Relation

/-! ## The joins of a sequence -/

/-- The id of a join. -/
def Block.join? : Block → Option String
  | .join s => some s.id
  | _ => none

/-- The joins in a sequence: those whose continuations it resumes. -/
def joinsOf (bs : List Block) : List String := (blocksIn bs).filterMap Block.join?

theorem mem_joinsOf {bs : List Block} {k : String} :
    k ∈ joinsOf bs ↔ ∃ s, .join s ∈ blocksIn bs ∧ s.id = k := by
  simp only [joinsOf, List.mem_filterMap]
  constructor
  · rintro ⟨b, hb, hk⟩
    cases b <;> simp only [Block.join?, reduceCtorEq, Option.some.injEq] at hk
    exact ⟨_, hb, hk⟩
  · rintro ⟨s, hs, rfl⟩
    exact ⟨_, hs, rfl⟩

@[simp] theorem joinsOf_nil : joinsOf [] = [] := rfl

theorem joinsOf_cons (b : Block) (rest : List Block) :
    joinsOf (b :: rest) = joinsOf [b] ++ joinsOf rest := by
  rw [joinsOf, blocksIn_cons, List.filterMap_append]
  rfl

@[simp] theorem joinsOf_join (s : Step) : joinsOf [.join s] = [s.id] := rfl

@[simp] theorem joinsOf_branch (s : Step) (yes no : List Block) :
    joinsOf [.branch s yes no] = joinsOf yes ++ joinsOf no := by
  rw [joinsOf, blocksIn_branch, List.filterMap_cons_none rfl, List.filterMap_append]
  rfl

@[simp] theorem joinsOf_select (s : Step) (arms : List (String × List Block)) (other : List Block) :
    joinsOf [.select s arms other] = (arms.flatMap fun a => joinsOf a.2) ++ joinsOf other := by
  rw [joinsOf, blocksIn_select, List.filterMap_cons_none rfl, List.filterMap_append,
    List.filterMap_flatMap]
  rfl

@[simp] theorem joinsOf_loop (s : Step) (body : List Block) :
    joinsOf [.loop s body] = joinsOf body := by
  rw [joinsOf, blocksIn_loop, List.filterMap_cons_none rfl]
  rfl

theorem mem_joinIds {p : Plan} {id : String} {s : Step} (hs : p.step? id = some s)
    (hf : s.form = .join) : id ∈ joinIds p := by
  have hm := List.mem_of_find?_eq_some hs
  have hk := Step.form_eq_join hf
  exact List.mem_map.mpr ⟨s, List.mem_filter.mpr ⟨hm, by simpa using hk⟩, Plan.step?_id hs⟩

/-- A walk leads only to joins of the plan that are not on its path. -/
theorem mem_joinsOf_walk {p : Plan} {path : List String} {start : Option String} {k : String}
    (h : k ∈ joinsOf (walk p path start)) : k ∈ joinIds p ∧ k ∉ path := by
  obtain ⟨s, hs, rfl⟩ := mem_joinsOf.mp h
  obtain ⟨h1, h2, h3⟩ := mem_walk hs
  exact ⟨mem_joinIds h1 h3.symm, h2⟩

/-! ## Building, by its nesting -/

/-- The visits of a continuation that is reached at a nesting. -/
def innerVisits (p : Plan) (within : List String) (join : String) (nesting : Nat) : List Pending :=
  (visitsOf (nesting + 1) (continuationOf p within join).body).map
    (⟨(continuationOf p within join).within, ·⟩)

/-- `Built p reached pending cs ws`: making the pending visits, where the joins `reached` have been
reached before, gives the continuations `cs` and the blocks `ws`. The visits inside a continuation
are told apart from those that come after it. -/
inductive Built (p : Plan) : List String → List Pending → List Continuation → List Block → Prop
  | done {reached : List String} : Built p reached [] [] []
  | pass {reached within : List String} {block : Block} {nesting : Nat} {rest : List Pending}
      {cs : List Continuation} {ws : List Block} :
      (∀ s f, block ≠ .unreadable s f) →
      (∀ s, block = .join s → s.id ∈ joinIds p → s.id ∈ reached) →
      Built p reached rest cs ws →
      Built p reached (⟨within, ⟨block, nesting⟩⟩ :: rest) cs (block :: ws)
  | fresh {reached within : List String} {s : Step} {nesting : Nat} {rest : List Pending}
      {cs cs' : List Continuation} {ws ws' : List Block} :
      s.id ∈ joinIds p → s.id ∉ reached →
      Built p (s.id :: reached) (innerVisits p within s.id nesting) cs ws →
      Built p ((cs.map (·.join)).reverse ++ s.id :: reached) rest cs' ws' →
      Built p reached (⟨within, ⟨.join s, nesting⟩⟩ :: rest)
        (continuationOf p within s.id :: (cs ++ cs')) (.join s :: (ws ++ ws'))

variable {p : Plan} {reached within : List String} {nesting : Nat} {rest : List Pending}

@[simp] theorem build_nil : build p reached [] = .ok ([], []) := by rw [build]

theorem build_tooDeep {block : Block} (h : nesting > maxNesting) :
    build p reached (⟨within, ⟨block, nesting⟩⟩ :: rest) = .error .tooDeep := by
  rw [build.eq_def]
  simp [h]

theorem build_unreadable {s : Step} {f : Fault} (h : ¬ nesting > maxNesting) :
    build p reached (⟨within, ⟨.unreadable s f, nesting⟩⟩ :: rest) = .error (.fault f) := by
  rw [build.eq_def]
  simp [h]

theorem build_fresh {s : Step} (h : ¬ nesting > maxNesting) (hj : s.id ∈ joinIds p)
    (hr : s.id ∉ reached) :
    build p reached (⟨within, ⟨.join s, nesting⟩⟩ :: rest) = do
      let (cs, ws) ← build p (s.id :: reached) (innerVisits p within s.id nesting ++ rest)
      return (continuationOf p within s.id :: cs, .join s :: ws) := by
  rw [build.eq_def]
  simp [h, hj, hr, innerVisits]

theorem build_pass {block : Block} (h : ¬ nesting > maxNesting)
    (hu : ∀ s f, block ≠ .unreadable s f)
    (hj : ∀ s, block = .join s → s.id ∈ joinIds p → s.id ∈ reached) :
    build p reached (⟨within, ⟨block, nesting⟩⟩ :: rest) = do
      let (cs, ws) ← build p reached rest
      return (cs, block :: ws) := by
  rw [build.eq_def]
  simp only [h, if_false]
  cases block with
  | unreadable s f => exact absurd rfl (hu s f)
  | join s =>
    have hn : ¬ (s.id ∈ joinIds p ∧ s.id ∉ reached) := fun hc => hc.2 (hj s rfl hc.1)
    simp [hn]
  | _ => rfl

theorem build_append (reached : List String) (xs ys : List Pending) :
    build p reached (xs ++ ys) = do
      let (cs, ws) ← build p reached xs
      let (cs', ws') ← build p ((cs.map (·.join)).reverse ++ reached) ys
      return (cs ++ cs', ws ++ ws') := by
  induction reached, xs using build.induct p with
  | case1 reached =>
    rw [build_nil]
    cases h : build p reached ys <;> simp [h, bind, Except.bind, pure, Except.pure]
  | case2 reached within block nesting rest h =>
    rw [List.cons_append, build_tooDeep h, build_tooDeep h]
    rfl
  | case3 reached within nesting rest h s f =>
    rw [List.cons_append, build_unreadable h, build_unreadable h]
    rfl
  | case4 reached within nesting rest h s hj c inner ih =>
    rw [show inner = innerVisits p within s.id nesting from rfl] at ih
    rw [List.cons_append, build_fresh h hj.1 hj.2, build_fresh h hj.1 hj.2, ← List.append_assoc, ih]
    simp [continuationOf]
  | case5 reached within nesting rest h s hj ih =>
    have hj' : ∀ s', Block.join s = .join s' → s'.id ∈ joinIds p → s'.id ∈ reached := by
      rintro s' ⟨⟩ hm
      exact Classical.not_not.mp fun hr => hj ⟨hm, hr⟩
    rw [List.cons_append, build_pass h (by simp) hj', build_pass h (by simp) hj', ih]
    simp only [bind_assoc, pure_bind, List.cons_append]
  | case6 reached within nesting rest h block hu hj ih =>
    have hj' : ∀ s, block = .join s → s.id ∈ joinIds p → s.id ∈ reached :=
      fun s hs => (hj s hs).elim
    rw [List.cons_append, build_pass h hu hj', build_pass h hu hj', ih]
    simp only [bind_assoc, pure_bind, List.cons_append]

theorem bind_eq_ok {ε α β : Type} {x : Except ε α} {f : α → Except ε β} {b : β} :
    x >>= f = .ok b ↔ ∃ a, x = .ok a ∧ f a = .ok b := by
  cases x <;> simp [bind, Except.bind]

theorem exists_eq_ok {ε α : Type} {x : Except ε α} (h : x.isOk = true) : ∃ a, x = .ok a := by
  cases x with
  | error e => simp [Except.isOk, Except.toBool] at h
  | ok a => exact ⟨a, rfl⟩

theorem length_unseen_append_le (members xs seen : List String) :
    (Graph.unseen members (xs ++ seen)).length ≤ (Graph.unseen members seen).length := by
  have hsub : Graph.unseen members (xs ++ seen) = (Graph.unseen members seen).filter (· ∉ xs) := by
    simp [Graph.unseen, List.filter_filter]
  rw [hsub]
  exact List.length_filter_le _ _

theorem built_of_build (reached : List String) (pending : List Pending) {cs : List Continuation}
    {ws : List Block} (h : build p reached pending = .ok (cs, ws)) :
    Built p reached pending cs ws := by
  match pending with
  | [] =>
    rw [build_nil] at h
    cases h
    exact .done
  | ⟨within, ⟨block, nesting⟩⟩ :: rest =>
    by_cases hn : nesting > maxNesting
    · rw [build_tooDeep hn] at h
      cases h
    by_cases hj : ∃ s, block = .join s ∧ s.id ∈ joinIds p ∧ s.id ∉ reached
    · obtain ⟨s, rfl, hm, hr⟩ := hj
      rw [build_fresh hn hm hr, build_append] at h
      simp only [bind_assoc, pure_bind, bind_eq_ok] at h
      obtain ⟨⟨cs₁, ws₁⟩, h₁, ⟨cs₂, ws₂⟩, h₂, h⟩ := h
      cases h
      exact .fresh hm hr (built_of_build _ _ h₁) (built_of_build _ _ h₂)
    · by_cases hu : ∃ s f, block = .unreadable s f
      · obtain ⟨s, f, rfl⟩ := hu
        rw [build_unreadable hn] at h
        cases h
      · have hu' : ∀ s f, block ≠ .unreadable s f := fun s f he => hu ⟨s, f, he⟩
        have hj' : ∀ s, block = .join s → s.id ∈ joinIds p → s.id ∈ reached := fun s he hm =>
          Classical.not_not.mp fun hr => hj ⟨s, he, hm, hr⟩
        rw [build_pass hn hu' hj'] at h
        simp only [bind_eq_ok] at h
        obtain ⟨⟨cs₁, ws₁⟩, h₁, h⟩ := h
        cases h
        exact .pass hu' hj' (built_of_build _ _ h₁)
termination_by ((Graph.unseen (joinIds p) reached).length, pending.length)
decreasing_by
  · exact Prod.Lex.left _ _ (Graph.length_unseen_cons_lt hm hr)
  · exact Prod.Lex.left _ _ (Nat.lt_of_le_of_lt (length_unseen_append_le ..)
      (Graph.length_unseen_cons_lt hm hr))
  · exact Prod.Lex.right _ (by simp)

variable {pending : List Pending} {cs : List Continuation} {ws : List Block}

theorem innerVisits_blocks (p : Plan) (within : List String) (join : String) (nesting : Nat) :
    (innerVisits p within join nesting).map (·.visit.block) =
      blocksIn (continuationOf p within join).body := by
  rw [← map_block_visitsOf (nesting + 1)]
  simp [innerVisits]

namespace Built

/-- Each continuation is that of a join of the plan not reached before, and no two are of one. -/
theorem joins (h : Built p reached pending cs ws) :
    (cs.map (·.join)).Nodup ∧ ∀ k ∈ cs.map (·.join), k ∈ joinIds p ∧ k ∉ reached := by
  induction h with
  | done => simp
  | pass _ _ _ ih => exact ih
  | @fresh reached within s nesting rest cs cs' ws ws' hm hr _ _ ih₁ ih₂ =>
    obtain ⟨nodup₁, new₁⟩ := ih₁
    obtain ⟨nodup₂, new₂⟩ := ih₂
    have hs₁ : s.id ∉ cs.map (·.join) := fun hk => (new₁ _ hk).2 (by simp)
    have hs₂ : s.id ∉ cs'.map (·.join) := fun hk => (new₂ _ hk).2 (by simp)
    have hdisj : ∀ k ∈ cs.map (·.join), k ∉ cs'.map (·.join) := fun k hk hk' =>
      (new₂ k hk').2 (List.mem_append_left _ (List.mem_reverse.mpr hk))
    rw [List.map_cons, List.map_append]
    refine ⟨List.nodup_cons.mpr ⟨?_, List.nodup_append.mpr ⟨nodup₁, nodup₂, ?_⟩⟩, ?_⟩
    · exact fun hk => (List.mem_append.mp hk).elim hs₁ hs₂
    · rintro k hk k' hk' rfl
      exact hdisj k hk hk'
    · intro k hk
      rcases List.mem_cons.mp hk with rfl | hk
      · exact ⟨hm, hr⟩
      rcases List.mem_append.mp hk with hk | hk
      · exact ⟨(new₁ k hk).1, fun h => (new₁ k hk).2 (List.mem_cons_of_mem _ h)⟩
      · exact ⟨(new₂ k hk).1, fun h => (new₂ k hk).2 (by simp [h])⟩

/-- What holds of the visits to be made, and passes from a join to the blocks of its continuation,
holds of the join of every continuation. -/
theorem exists_join {P : List String → Block → Prop} (h : Built p reached pending cs ws)
    (hpending : ∀ v ∈ pending, P v.within v.visit.block)
    (hinner : ∀ within s, P within (.join s) → continuationOf p within s.id ∈ cs →
      ∀ b ∈ blocksIn (continuationOf p within s.id).body, P (within ++ [s.id]) b) :
    ∀ c ∈ cs, ∃ within s, P within (.join s) ∧ c = continuationOf p within s.id := by
  induction h with
  | done => simp
  | pass _ _ _ ih => exact ih (fun v hv => hpending v (List.mem_cons_of_mem _ hv)) hinner
  | @fresh reached within s nesting rest cs cs' ws ws' _ _ _ _ ih₁ ih₂ =>
    have hs : P within (.join s) := hpending _ List.mem_cons_self
    intro c hc
    rcases List.mem_cons.mp hc with rfl | hc
    · exact ⟨within, s, hs, rfl⟩
    rcases List.mem_append.mp hc with hc | hc
    · refine ih₁ (fun v hv => ?_) (fun w j hj hm => hinner w j hj (by simp [hm])) c hc
      have hb : v.visit.block ∈ blocksIn (continuationOf p within s.id).body := by
        rw [← innerVisits_blocks p within s.id nesting]
        exact List.mem_map_of_mem hv
      obtain ⟨visit, -, rfl⟩ := List.mem_map.mp hv
      exact hinner within s hs List.mem_cons_self _ hb
    · exact ih₂ (fun v hv => hpending v (List.mem_cons_of_mem _ hv))
        (fun w j hj hm => hinner w j hj (by simp [hm])) c hc

/-- A continuation is the walk from its join on, on a path of joins that holds its own and those
that were open where it was reached. -/
theorem body (h : Built p reached pending cs ws) : ∀ c ∈ cs,
    c.body = walk p c.within (p.nextTarget c.join) ∧ c.join ∈ c.within ∧
      ∃ v ∈ pending, ∀ k ∈ v.within, k ∈ c.within := by
  intro c hc
  obtain ⟨within, s, ⟨v, hv, hk⟩, rfl⟩ :=
    h.exists_join (P := fun within _ => ∃ v ∈ pending, ∀ k ∈ v.within, k ∈ within)
      (fun v hv => ⟨v, hv, fun _ hk => hk⟩)
      (fun _ _ ⟨v, hv, hk⟩ _ _ _ => ⟨v, hv, fun k hkv => List.mem_append_left _ (hk k hkv)⟩) c hc
  exact ⟨rfl, by simp [continuationOf], v, hv, fun k hkv => by simp [continuationOf, hk k hkv]⟩

/-- The blocks that are met are those to be visited and those of the continuations. -/
theorem mem_written (h : Built p reached pending cs ws) {b : Block} :
    b ∈ ws ↔ b ∈ pending.map (·.visit.block) ∨ ∃ c ∈ cs, b ∈ blocksIn c.body := by
  induction h with
  | done => simp
  | pass _ _ _ ih => simp [ih, or_assoc]
  | @fresh reached within s nesting rest cs cs' ws ws' _ _ _ _ ih₁ ih₂ =>
    rw [innerVisits_blocks] at ih₁
    simp only [List.mem_cons, List.mem_append, ih₁, ih₂, List.map_cons, or_and_right, exists_or]
    grind

theorem readable (h : Built p reached pending cs ws) (s : Step) (f : Fault) :
    .unreadable s f ∉ ws := by
  induction h with
  | done => simp
  | pass hu _ _ ih => simp [ih, (hu s f).symm]
  | fresh _ _ _ _ ih₁ ih₂ => simp [ih₁, ih₂]

/-- Every join that is met has been reached before or gets a continuation. -/
theorem reaches (h : Built p reached pending cs ws) {s : Step} (hs : .join s ∈ ws)
    (hj : s.id ∈ joinIds p) : s.id ∈ reached ∨ s.id ∈ cs.map (·.join) := by
  induction h with
  | done => simp at hs
  | pass _ hp _ ih =>
    rcases List.mem_cons.mp hs with rfl | hs
    · exact .inl (hp s rfl hj)
    · exact ih hs
  | @fresh reached within s' nesting rest cs cs' ws ws' _ _ _ _ ih₁ ih₂ =>
    have hself : (continuationOf p within s'.id).join = s'.id := rfl
    simp only [List.mem_cons, List.mem_append] at hs
    simp only [List.mem_append, List.mem_reverse, List.mem_cons] at ih₁ ih₂
    simp only [List.map_cons, List.map_append, List.mem_cons, List.mem_append, hself]
    rcases hs with hs | hs | hs
    · cases hs
      exact .inr (.inl rfl)
    · rcases ih₁ hs with (hk | hk) | hk
      · exact .inr (.inl hk)
      · exact .inl hk
      · exact .inr (.inr (.inl hk))
    · rcases ih₂ hs with (hk | hk | hk) | hk
      · exact .inr (.inr (.inl hk))
      · exact .inr (.inl hk)
      · exact .inl hk
      · exact .inr (.inr (.inr hk))

/-- The continuations in the order in which they are finished: each resumes only such as are
finished before it, or were finished before all of them. -/
theorem finished (h : Built p reached pending cs ws) :
    ∃ order : List String, order.Perm (cs.map (·.join)) ∧ ∀ c ∈ cs, ∀ k ∈ joinsOf c.body,
      (k ∈ reached ∧ k ∉ c.within) ∨ order.idxOf k < order.idxOf c.join := by
  induction h with
  | done => exact ⟨[], .refl _, by simp⟩
  | pass _ _ _ ih => exact ih
  | @fresh reached within s nesting rest cs cs' ws ws' hm hr h₁ h₂ ih₁ ih₂ =>
    obtain ⟨order₁, perm₁, before₁⟩ := ih₁
    obtain ⟨order₂, perm₂, before₂⟩ := ih₂
    have hs₁ : s.id ∉ order₁ := fun hk => (h₁.joins.2 _ (perm₁.mem_iff.mp hk)).2 (by simp)
    have hidx : (order₁ ++ s.id :: order₂).idxOf s.id = order₁.length := by
      simp [List.idxOf_append_of_notMem hs₁]
    -- What is finished inside the continuation comes before the join itself, what is finished
    -- after it comes later.
    have hin : ∀ k ∈ order₁, (order₁ ++ s.id :: order₂).idxOf k = order₁.idxOf k ∧
        order₁.idxOf k < order₁.length := fun k hk =>
      ⟨List.idxOf_append_of_mem hk, List.idxOf_lt_length_of_mem hk⟩
    have hafter : ∀ k, k ∉ order₁ → k ≠ s.id →
        (order₁ ++ s.id :: order₂).idxOf k = order₁.length + 1 + order₂.idxOf k := by
      intro k hk hne
      rw [List.idxOf_append_of_notMem hk, List.idxOf_cons_ne _ (Ne.symm hne)]
      omega
    refine ⟨order₁ ++ s.id :: order₂, ?_, ?_⟩
    · rw [List.map_cons, List.map_append]
      exact List.perm_middle.trans ((perm₁.append perm₂).cons _)
    intro c hc k hk
    rcases List.mem_cons.mp hc with rfl | hc
    · obtain ⟨hkj, hkw⟩ := mem_joinsOf_walk hk
      have hne : k ≠ s.id := fun he => hkw (by simp [he])
      obtain ⟨s', hs', rfl⟩ := mem_joinsOf.mp hk
      have hmet : Block.join s' ∈ ws := h₁.mem_written.mpr (.inl (by rwa [innerVisits_blocks]))
      rcases h₁.reaches hmet hkj with hkr | hkc
      · exact .inl ⟨(List.mem_cons.mp hkr).resolve_left hne, hkw⟩
      · obtain ⟨he, hlt⟩ := hin _ (perm₁.mem_iff.mpr hkc)
        right
        show _ < (order₁ ++ s.id :: order₂).idxOf s.id
        omega
    rcases List.mem_append.mp hc with hc | hc
    · obtain ⟨-, -, v, hv, hvw⟩ := h₁.body c hc
      have hsw : s.id ∈ c.within := by
        obtain ⟨_, -, rfl⟩ := List.mem_map.mp hv
        exact hvw _ (by simp [continuationOf])
      rcases before₁ c hc k hk with ⟨hkr, hkw⟩ | hlt
      · exact .inl ⟨(List.mem_cons.mp hkr).resolve_left fun he => hkw (he ▸ hsw), hkw⟩
      · obtain ⟨hec, hlc⟩ := hin _ (perm₁.mem_iff.mpr (List.mem_map_of_mem hc))
        obtain ⟨hek, -⟩ := hin k (List.idxOf_lt_length_iff.mp (by omega))
        right
        omega
    · have hcnew := h₂.joins.2 _ (List.mem_map_of_mem hc)
      have hce := hafter c.join (fun h => hcnew.2 (by simp [perm₁.mem_iff.mp h]))
        (fun h => hcnew.2 (by simp [h]))
      by_cases hk₁ : k ∈ order₁
      · obtain ⟨hek, hlk⟩ := hin k hk₁
        right
        omega
      by_cases hks : k = s.id
      · right
        rw [hks, hidx]
        omega
      rcases before₂ c hc k hk with ⟨hkr, hkw⟩ | hlt
      · simp only [List.mem_append, List.mem_reverse, List.mem_cons] at hkr
        rcases hkr with hkr | hkr | hkr
        · exact absurd (perm₁.mem_iff.mpr hkr) hk₁
        · exact absurd hkr hks
        · exact .inl ⟨hkr, hkw⟩
      · have hke := hafter k hk₁ hks
        right
        omega

end Built

/-! ## Flows -/

theorem flowOf_eq_ok {f : Flow} (h : flowOf p = .ok f) :
    f.main = walk p [p.entry] (firstStep? p) ∧
      Built p [] ((visitsOf 0 f.main).map (⟨[], ·⟩)) f.continuations f.written := by
  simp only [flowOf, bind_eq_ok] at h
  obtain ⟨⟨cs, ws⟩, hb, h⟩ := h
  cases h
  exact ⟨rfl, built_of_build _ _ hb⟩

theorem ofPlan_eq_ok {h : Handler} (hp : ofPlan p = .ok h) :
    ∃ kind, p.step? p.entry = some h.trigger ∧ TriggerKind.ofKind? h.trigger.kind = some kind ∧
      Guard.ofStep kind h.trigger = .ok h.guard ∧ flowOf p = .ok h.flow ∧
      h.nodeNames = variableNames (p.steps.map (·.id)) := by
  unfold ofPlan at hp
  split at hp
  · cases hp
  next trigger ht =>
  split at hp
  · cases hp
  next kind hk =>
  simp only [bind_eq_ok] at hp
  obtain ⟨guard, hg, flow, hf, hp⟩ := hp
  cases hp
  refine ⟨kind, ht, hk, ?_, hf, rfl⟩
  cases hgs : Guard.ofStep kind trigger with
  | error e => simp [hgs, Except.mapError] at hg
  | ok g => simpa [hgs, Except.mapError] using hg

namespace Flow

/-- Somewhere in a flow the continuation of a join is resumed. -/
def Awaits (f : Flow) (k : String) : Prop :=
  k ∈ joinsOf f.main ∨ ∃ c ∈ f.continuations, k ∈ joinsOf c.body

/-- The continuation of one join resumes that of another. -/
def Resumes (f : Flow) (m k : String) : Prop :=
  ∃ c ∈ f.continuations, c.join = m ∧ k ∈ joinsOf c.body

variable {f : Flow} (hf : flowOf p = .ok f)

include hf

theorem joins_nodup : (f.continuations.map (·.join)).Nodup := (flowOf_eq_ok hf).2.joins.1

theorem joins_subset : ∀ k ∈ f.continuations.map (·.join), k ∈ joinIds p := fun k hk =>
  ((flowOf_eq_ok hf).2.joins.2 k hk).1

theorem body_eq {c : Continuation} (hc : c ∈ f.continuations) :
    c.body = walk p c.within (p.nextTarget c.join) := ((flowOf_eq_ok hf).2.body c hc).1

/-- The blocks that are written are those of the main sequence and of the continuations. -/
theorem mem_written {b : Block} :
    b ∈ f.written ↔ b ∈ blocksIn f.main ∨ ∃ c ∈ f.continuations, b ∈ blocksIn c.body := by
  rw [(flowOf_eq_ok hf).2.mem_written]
  simp [blocksIn, Function.comp_def]

/-- A block of a flow is made of a step of the plan, by its form. -/
theorem step_of_written {b : Block} (hb : b ∈ f.written) :
    p.step? b.step.id = some b.step ∧ b.form = b.step.form := by
  rcases (mem_written hf).mp hb with hb | ⟨c, hc, hb⟩
  · rw [(flowOf_eq_ok hf).1] at hb
    exact ⟨(mem_walk hb).1, (mem_walk hb).2.2⟩
  · rw [body_eq hf hc] at hb
    exact ⟨(mem_walk hb).1, (mem_walk hb).2.2⟩

/-- What is resumed has a continuation. -/
theorem Awaits.mem {k : String} (hk : f.Awaits k) : k ∈ f.continuations.map (·.join) := by
  obtain ⟨hmain, hb⟩ := flowOf_eq_ok hf
  have hj : k ∈ joinIds p := by
    rcases hk with hk | ⟨c, hc, hk⟩
    · rw [hmain] at hk
      exact (mem_joinsOf_walk hk).1
    · rw [body_eq hf hc] at hk
      exact (mem_joinsOf_walk hk).1
  have hw : ∃ s, Block.join s ∈ f.written ∧ s.id = k := by
    rcases hk with hk | ⟨c, hc, hk⟩
    · obtain ⟨s, hs, rfl⟩ := mem_joinsOf.mp hk
      exact ⟨s, (mem_written hf).mpr (.inl hs), rfl⟩
    · obtain ⟨s, hs, rfl⟩ := mem_joinsOf.mp hk
      exact ⟨s, (mem_written hf).mpr (.inr ⟨c, hc, hs⟩), rfl⟩
  obtain ⟨s, hs, rfl⟩ := hw
  exact (hb.reaches hs hj).resolve_left (by simp)

/-- The continuations can be ordered so that each resumes only such as come before it. -/
theorem exists_order : ∃ order : List String, order.Perm (f.continuations.map (·.join)) ∧
    ∀ m k, f.Resumes m k → order.idxOf k < order.idxOf m := by
  obtain ⟨order, hperm, hbefore⟩ := (flowOf_eq_ok hf).2.finished
  refine ⟨order, hperm, ?_⟩
  rintro _ k ⟨c, hc, rfl, hk⟩
  exact (hbefore c hc k hk).resolve_left (by simp)

/-- What holds of a join whenever it holds of all joins in its continuation holds of every join. -/
@[elab_as_elim]
theorem join_induct {motive : String → Prop}
    (h : ∀ c ∈ f.continuations, (∀ k ∈ joinsOf c.body, motive k) → motive c.join) {k : String}
    (hk : k ∈ f.continuations.map (·.join)) : motive k := by
  obtain ⟨order, -, hbefore⟩ := exists_order hf
  induction hn : order.idxOf k using Nat.strongRecOn generalizing k with
  | ind n ih =>
    obtain ⟨c, hc, rfl⟩ := List.mem_map.mp hk
    refine h c hc fun j hj => ?_
    have hlt := hbefore c.join j ⟨c, hc, rfl, hj⟩
    exact ih _ (by omega) (Awaits.mem hf (.inr ⟨c, hc, hj⟩)) rfl

theorem not_transGen_resumes (m : String) : ¬ TransGen f.Resumes m m := by
  obtain ⟨order, -, hbefore⟩ := exists_order hf
  exact not_transGen_of_rank order.idxOf hbefore m

end Flow

/-- Where keys are distinct, one item is left of those that have the key of a given one. -/
theorem filter_eq_singleton {α β : Type} {items : List α} {key : α → β} {P : α → Bool} {c : α}
    (hn : (items.map key).Nodup) (hc : c ∈ items) (hP : ∀ d ∈ items, P d = true ↔ key d = key c) :
    items.filter P = [c] := by
  obtain ⟨l₁, l₂, rfl⟩ := List.append_of_mem hc
  simp only [List.map_append, List.map_cons, List.nodup_append, List.nodup_cons] at hn
  obtain ⟨-, ⟨h₂, -⟩, h₁⟩ := hn
  have hl₁ : l₁.filter P = [] := List.filter_eq_nil_iff.mpr fun d hd hp =>
    h₁ _ (List.mem_map_of_mem hd) _ (by simp) ((hP d (by simp [hd])).mp hp)
  have hl₂ : l₂.filter P = [] := List.filter_eq_nil_iff.mpr fun d hd hp =>
    h₂ ((hP d (by simp [hd])).mp hp ▸ List.mem_map_of_mem hd)
  rw [List.filter_append, List.filter_cons_of_pos ((hP c hc).mpr rfl), hl₁, hl₂, List.nil_append]

/-- **Continuations cannot recur.** In the handler of any plan, whatever its cycles and joins, each
coroutine that is awaited is defined exactly once, with the whole walk from its join on as its body;
and no chain of continuations, each resuming the next, comes back to where it began. -/
theorem continuations_never_recur {p : Plan} {h : Handler} (hp : ofPlan p = .ok h) :
    (∀ k, h.flow.Awaits k → ∃ c,
      h.flow.continuations.filter (h.continuationName ·.join = h.continuationName k) = [c] ∧
        c.join = k ∧ c.body = walk p c.within (p.nextTarget k)) ∧
    ∀ m, ¬ TransGen h.flow.Resumes m m := by
  obtain ⟨-, -, -, -, hf, hn⟩ := ofPlan_eq_ok hp
  refine ⟨fun k hk => ?_, Flow.not_transGen_resumes hf⟩
  have hids : ∀ j ∈ h.flow.continuations.map (·.join), j ∈ p.steps.map (·.id) := fun j hj => by
    obtain ⟨s, hs, rfl⟩ := List.mem_map.mp (Flow.joins_subset hf j hj)
    exact List.mem_map_of_mem (List.mem_of_mem_filter hs)
  obtain ⟨c, hc, rfl⟩ := List.mem_map.mp (Flow.Awaits.mem hf hk)
  refine ⟨c, ?_, rfl, Flow.body_eq hf hc⟩
  refine filter_eq_singleton (Flow.joins_nodup hf) hc fun d hd => ?_
  simp only [decide_eq_true_eq]
  refine ⟨fun he => ?_, fun he => by rw [he]⟩
  exact continuationName_inj hn (hids _ (List.mem_map_of_mem hd))
    (hids _ (List.mem_map_of_mem hc)) he

/-- Two joins that lead to each other, each reached by an arm of its own. -/
def crossing : Plan where
  steps := [
    { id := "start", kind := "trigger-manual", role := .trigger, data := [], structural := false,
      category := .core },
    { id := "which", kind := "if", role := .action, data := [("condition", .str "input")],
      structural := true, category := .core },
    { id := "left", kind := "merge", role := .action, data := [], structural := true,
      category := .core },
    { id := "right", kind := "merge", role := .action, data := [], structural := true,
      category := .core }]
  edges := [
    { source := "start", target := "which" },
    { source := "which", target := "left", sourcePort := some "true" },
    { source := "which", target := "right", sourcePort := some "false" },
    { source := "left", target := "right" },
    { source := "right", target := "left" }]
  entry := "start"
  hasCycle := true
  depth := 4

theorem crossing_never_recurs : ∃ h, ofPlan crossing = .ok h ∧ h.flow.Resumes "left" "right" ∧
    ¬ h.flow.Resumes "right" "left" ∧ ∃ c, h.flow.continuations.filter
      (h.continuationName ·.join = h.continuationName "right") = [c] ∧ c.join = "right" := by
  obtain ⟨h, hp⟩ := exists_eq_ok (x := ofPlan crossing) (by cbv)
  have hjoins : h.flow.continuations.map (fun c => (c.join, joinsOf c.body)) =
      [("left", ["right"]), ("right", [])] := by
    have heval : (ofPlan crossing).map (fun h =>
        h.flow.continuations.map fun c => (c.join, joinsOf c.body)) =
          .ok [("left", ["right"]), ("right", [])] := by
      cbv
    rw [hp] at heval
    exact Except.ok.inj heval
  obtain ⟨c, hc, he⟩ : ∃ c ∈ h.flow.continuations, (c.join, joinsOf c.body) = ("left", ["right"]) :=
    List.mem_map.mp (by rw [hjoins]; simp)
  obtain ⟨hleft, hbody⟩ := Prod.ext_iff.mp he
  have hright : "right" ∈ joinsOf c.body := by simp [show joinsOf c.body = _ from hbody]
  have hres : h.flow.Resumes "left" "right" := ⟨c, hc, hleft, hright⟩
  obtain ⟨hdefined, hcycle⟩ := continuations_never_recur hp
  refine ⟨h, hp, hres, fun hback => hcycle "left" (.tail (.single hres) hback), ?_⟩
  obtain ⟨d, hd, hdk, -⟩ := hdefined "right" (.inr ⟨c, hc, hright⟩)
  exact ⟨d, hd, hdk⟩

end Workflow.Handler
