/-
A run, moment by moment.

A handler has a list of jobs before it. At each moment it does the first of
them (`Job.does`): it notes that a node is entered, does the node's own work and
puts the blocks that the node leads to in its place. `Moves` is one such moment
in which nothing goes wrong, and `Raises` one that ends in an error.

The execution of a flow is just this (`Flow.run_eq_ok`, `Flow.run_eq_error`):
it is over when no job is left, or at the first moment that raises an error.
-/
import Workflow.Proofs.Admission

namespace Workflow

/-- A message is recorded. -/
def RunState.noted (s : RunState) (message : String) : RunState :=
  { s with log := s.log.record .info message .none }

/-- A node is entered. -/
def RunState.entered (s : RunState) (id : String) : RunState := s.noted ("Executing node " ++ id)

/-- Variables are bound. -/
def RunState.bound (s : RunState) (names : Names) : RunState :=
  { s with context := names.foldl (fun c (name, v) => c.bind name v) s.context }

namespace Handler

open Relation

/-- What a handler still has to do: a block, or the body of a loop for a batch of items. -/
inductive Job where
  | enter (block : Block)
  | batch (s : Step) (body : List Block) (position : Nat) (items : List Value)

/-- The blocks that a job holds, those nested in others included. -/
def Job.blocks : Job → List Block
  | .enter block => blocksIn [block]
  | .batch _ body _ _ => blocksIn body

/-- Blocks as jobs. -/
def jobsOf (bs : List Block) : List Job := bs.map .enter

/-- The batches of a loop as jobs. -/
def batchJobs (st : Step) (body : List Block) (items : List Value) : List Job :=
  (batches st.batchSize 0 items).map fun (position, batch) => .batch st body position batch

/-- What follows a join. -/
def Flow.bodyOf (f : Flow) (join : String) : List Block :=
  ((f.continuations.find? (·.join = join)).map (·.body)).getD []

/-- The arm of a selection for a value. -/
def armFor (value : String) (other : List Block) (arms : List (String × List Block)) : List Block :=
  ((arms.find? (·.1 = value)).map (·.2)).getD other

/-- The items that a loop runs over in a context. -/
def itemsOf (st : Step) (c : Context) : Attempt (List Value) := do
  let v ← c.evaluate (.str st.iterator)
  if v.truthy then v.iterate.attempt else .ok []

/-- The jobs that a node leads to in a context. Only actions have work to do besides. -/
def Block.leads (f : Flow) (c : Context) : Block → Attempt (List Job)
  | .branch st yes no => do
    let v ← c.evaluate (.str st.condition)
    return jobsOf (if v.truthy then yes else no)
  | .subject st => do
    let _ ← c.evaluate (.str st.subject)
    return []
  | .select st arms other => do
    let v ← c.evaluate (.str st.subject)
    let text ← v.shown.attempt
    return jobsOf (armFor text other arms)
  | .loop st body => do
    let items ← itemsOf st c
    return batchJobs st body items
  | .join st => return jobsOf (f.bodyOf st.id)
  | _ => return []

/-- A point of a run: what is still to be done, and how far the run has come. -/
abbrev Point := List Job × RunState

section

variable (f : Flow) (b : Behaviour) (secrets : Value)

/-- Does a job, up to the jobs that it leads to. -/
def Job.does : Job → RunState → Except Raised (List Job) × RunState
  | .enter (.action st), s =>
    let (outcome, s') := (runAction b secrets st).run.run (s.entered st.id)
    (outcome.map fun _ => [], s')
  | .enter block, s => (block.leads f s.context, s.entered block.step.id)
  | .batch st body position items, s =>
    (.ok (jobsOf body), s.bound [(st.itemVariable, batchValue st.batchSize items),
      (st.itemVariable ++ "Index", .int position)])

/-- The next moment of a run, in which nothing goes wrong. -/
inductive Moves : Point → Point → Prop
  | next {t : Job} {rest more : List Job} {s s' : RunState} :
      t.does f b secrets s = (.ok more, s') → Moves (t :: rest, s) (more ++ rest, s')

/-- At a point of a run the next moment raises an error, and leaves a state behind. -/
inductive Raises : Point → Raised → RunState → Prop
  | now {t : Job} {rest : List Job} {s s' : RunState} {e : Raised} :
      t.does f b secrets s = (.error e, s') → Raises (t :: rest, s) e s'

/-- A run from a state comes to a point. -/
def Reached (s : RunState) (point : Point) : Prop :=
  ReflTransGen (Moves f b secrets) (jobsOf f.main, s) point

/-- A run from one state comes to its end in another. -/
def Completes (s s' : RunState) : Prop := Reached f b secrets s ([], s')

/-- A run comes to a moment that raises an error: there is no such moment before. -/
def Breaks (s : RunState) (e : Raised) (s' : RunState) : Prop :=
  ∃ point, Reached f b secrets s point ∧ Raises f b secrets point e s'

/-- From a point on, a run comes to where only the last jobs are left, or raises an error before. -/
inductive Played (point : Point) (rest : List Job) : Except Raised Unit × RunState → Prop
  | through {s : RunState} : ReflTransGen (Moves f b secrets) point (rest, s) →
      Played point rest (.ok (), s)
  | broken {point' : Point} {e : Raised} {s : RunState} :
      ReflTransGen (Moves f b secrets) point point' → Raises f b secrets point' e s →
      Played point rest (.error e, s)

/-- A part of a run does just the given jobs, whatever is to be done after them. -/
def Plays (x : Run Unit) (jobs : List Job) : Prop :=
  ∀ s rest, Played f b secrets (jobs ++ rest, s) rest (x.run.run s)

end

variable {p : Plan} {f : Flow} {b : Behaviour} {secrets : Value} {resume : String → Run Unit}

/-! ## Runs as jobs -/

theorem Played.head {point point' : Point} {rest : List Job}
    {outcome : Except Raised Unit × RunState} (hm : ReflTransGen (Moves f b secrets) point point')
    (h : Played f b secrets point' rest outcome) : Played f b secrets point rest outcome := by
  cases h with
  | through h => exact .through (hm.trans h)
  | broken h hr => exact .broken (hm.trans h) hr

theorem plays_nil : Plays f b secrets (pure ()) [] := fun _ _ => .through .refl

theorem Plays.seq {x y : Run Unit} {xs ys : List Job} (hx : Plays f b secrets x xs)
    (hy : Plays f b secrets y ys) : Plays f b secrets (do x; y) (xs ++ ys) := by
  intro s rest
  have hx := hx s (ys ++ rest)
  rw [run_bind, List.append_assoc]
  cases hxs : x.run.run s with
  | mk outcome s' =>
    rw [hxs] at hx
    cases hx with
    | through hm => exact (hy s' rest).head hm
    | broken hm hr => exact .broken hm hr

/-- A part of a run that begins with a job and goes on with what the job leads to. -/
theorem Plays.first {t : Job} {x : Run Unit}
    (herror : ∀ s e s', t.does f b secrets s = (.error e, s') → x.run.run s = (.error e, s'))
    (hok : ∀ s more s', t.does f b secrets s = (.ok more, s') →
      ∃ y, Plays f b secrets y more ∧ x.run.run s = y.run.run s') : Plays f b secrets x [t] := by
  intro s rest
  cases ht : t.does f b secrets s with
  | mk outcome s' =>
    cases outcome with
    | error e =>
      rw [herror s e s' ht]
      exact .broken .refl (.now ht)
    | ok more =>
      obtain ⟨y, hy, hx⟩ := hok s more s' ht
      rw [hx]
      exact (hy s' rest).head (.single (.next ht))

theorem run_note (message : String) (s : RunState) :
    (Run.note message).run.run s = (.ok (), s.noted message) := rfl

theorem does_control {block : Block} (hb : ∀ st, block ≠ .action st) (s : RunState) :
    Job.does f b secrets (.enter block) s =
      (block.leads f s.context, s.entered block.step.id) := by
  cases block with
  | action st => exact absurd rfl (hb st)
  | _ => rfl

theorem does_action_error {st : Step} {s s' : RunState} {e : Raised}
    (h : Job.does f b secrets (.enter (.action st)) s = (.error e, s')) :
    (runAction b secrets st).run.run (s.entered st.id) = (.error e, s') := by
  rw [Job.does] at h
  cases hr : (runAction b secrets st).run.run (s.entered st.id) with
  | mk outcome s'' =>
    rw [hr] at h
    cases outcome <;> cases h
    rfl

theorem does_action_ok {st : Step} {s s' : RunState} {more : List Job}
    (h : Job.does f b secrets (.enter (.action st)) s = (.ok more, s')) :
    more = [] ∧ (runAction b secrets st).run.run (s.entered st.id) = (.ok (), s') := by
  rw [Job.does] at h
  cases hr : (runAction b secrets st).run.run (s.entered st.id) with
  | mk outcome s'' =>
    rw [hr] at h
    cases outcome <;> cases h
    exact ⟨rfl, rfl⟩

/-- The same for a node that has no work of its own: all that can go wrong is to find out where it
leads to. -/
theorem Plays.control (block : Block) {k : Run Unit} (hb : ∀ st, block ≠ .action st)
    (h : ∀ s : RunState,
      (∃ e, block.leads f s.context = .error e ∧ k.run.run s = (.error e, s)) ∨
      ∃ more y, block.leads f s.context = .ok more ∧ Plays f b secrets y more ∧
        k.run.run s = y.run.run s) :
    Plays f b secrets (do Run.note ("Executing node " ++ block.step.id); k) [.enter block] := by
  have hrun : ∀ s : RunState, (do Run.note ("Executing node " ++ block.step.id); k).run.run s =
      k.run.run (s.entered block.step.id) := fun s => by rw [run_bind, run_note]; rfl
  refine Plays.first (fun s e s' hs => ?_) fun s more s' hs => ?_
  · rw [does_control hb] at hs
    obtain ⟨hlead, rfl⟩ := Prod.mk.inj hs
    rw [hrun]
    rcases h (s.entered block.step.id) with ⟨e', he, hk⟩ | ⟨more, y, he, -⟩
    · cases hlead.symm.trans he
      exact hk
    · cases hlead.symm.trans he
  · rw [does_control hb] at hs
    obtain ⟨hlead, rfl⟩ := Prod.mk.inj hs
    rw [hrun]
    rcases h (s.entered block.step.id) with ⟨e', he, -⟩ | ⟨more', y, he, hy, hk⟩
    · cases hlead.symm.trans he
    · cases hlead.symm.trans he
      exact ⟨y, hy, hk⟩

/-- A node that leads nowhere is only noted. -/
theorem plays_note (block : Block) (hb : ∀ st, block ≠ .action st)
    (hlead : ∀ c, block.leads f c = .ok []) :
    Plays f b secrets (Run.note ("Executing node " ++ block.step.id)) [.enter block] := by
  rw [← bind_pure_unit (x := Run.note _)]
  exact Plays.control block hb fun s => .inr ⟨[], pure (), hlead s.context, plays_nil, rfl⟩

theorem ok_bind {ε α β : Type} (a : α) (k : α → Except ε β) : (Except.ok a >>= k) = k a := rfl

theorem run_loopItems (st : Step) (s : RunState) :
    (loopItems st).run.run s = (itemsOf st s.context, s) := by
  rw [loopItems, run_bind, run_formula, itemsOf]
  cases s.context.evaluate (.str st.iterator) with
  | error e => rfl
  | ok v =>
    dsimp only
    rw [ok_bind]
    split
    · exact run_ofAttempt _ s
    · rfl

theorem plays_batches (st : Step) {body : Run Unit} {bs : List Block}
    (h : Plays f b secrets body (jobsOf bs)) (items : List (Nat × List Value)) :
    Plays f b secrets (runBatches st body items)
      (items.map fun (position, batch) => .batch st bs position batch) := by
  induction items with
  | nil => exact plays_nil
  | cons item rest ih =>
    rw [runBatches, ← bind_assoc, List.map_cons, ← List.singleton_append]
    refine Plays.seq (Plays.first (fun s e s' hs => ?_) fun s more s' hs => ?_) ih
    · cases hs
    · cases hs
      exact ⟨body, h, rfl⟩

mutual

theorem plays_block : ∀ block : Block,
    (∀ k ∈ joinsOf [block], Plays f b secrets (resume k) (jobsOf (f.bodyOf k))) →
    Plays f b secrets (runBlock b secrets resume block) [.enter block]
  | .trigger st, _ => by
    rw [runBlock]
    exact plays_note (.trigger st) (by simp) fun _ => rfl
  | .unsupported st, _ => by
    rw [runBlock]
    exact plays_note (.unsupported st) (by simp) fun _ => rfl
  | .unreadable st fault, _ => by
    rw [runBlock]
    exact plays_note (.unreadable st fault) (by simp) fun _ => rfl
  | .action st, _ => by
    rw [runBlock]
    have hrun : ∀ s : RunState, (do Run.note ("Executing node " ++ st.id)
                                    runAction b secrets st).run.run s =
        (runAction b secrets st).run.run (s.entered st.id) := fun s => by
      rw [run_bind, run_note]
      rfl
    refine Plays.first (fun s e s' hs => ?_) fun s more s' hs => ?_
    · rw [hrun]
      exact does_action_error hs
    · obtain ⟨rfl, hdone⟩ := does_action_ok hs
      exact ⟨pure (), plays_nil, by rw [hrun, hdone]; rfl⟩
  | .branch st yes no, h => by
    simp only [joinsOf_branch, List.mem_append] at h
    rw [runBlock]
    refine Plays.control (.branch st yes no) (by simp) fun s => ?_
    rw [run_bind, run_formula, Block.leads]
    cases s.context.evaluate (.str st.condition) with
    | error e => exact .inl ⟨e, rfl, rfl⟩
    | ok v =>
      have hplays : Plays f b secrets (if v.truthy then runBlocks b secrets resume yes
          else runBlocks b secrets resume no) (jobsOf (if v.truthy then yes else no)) := by
        cases v.truthy with
        | true => exact plays_blocks yes fun k hk => h k (.inl hk)
        | false => exact plays_blocks no fun k hk => h k (.inr hk)
      exact .inr ⟨_, _, rfl, hplays, rfl⟩
  | .subject st, _ => by
    rw [runBlock]
    refine Plays.control (.subject st) (by simp) fun s => ?_
    rw [run_bind, run_formula, Block.leads]
    cases s.context.evaluate (.str st.subject) with
    | error e => exact .inl ⟨e, rfl, rfl⟩
    | ok v => exact .inr ⟨[], pure (), rfl, plays_nil, rfl⟩
  | .select st arms other, h => by
    simp only [joinsOf_select, List.mem_append, List.mem_flatMap] at h
    rw [runBlock]
    refine Plays.control (.select st arms other) (by simp) fun s => ?_
    rw [run_bind, run_formula, Block.leads]
    cases s.context.evaluate (.str st.subject) with
    | error e => exact .inl ⟨e, rfl, rfl⟩
    | ok v =>
      dsimp only
      rw [run_bind, run_ofAttempt, ok_bind]
      cases v.shown.attempt with
      | error e => exact .inl ⟨e, rfl, rfl⟩
      | ok text =>
        have hplays := plays_arms text (plays_blocks other fun k hk => h k (.inr hk)) arms
          fun a ha k hk => h k (.inl ⟨a, ha, hk⟩)
        exact .inr ⟨_, _, rfl, hplays, rfl⟩
  | .loop st body, h => by
    simp only [joinsOf_loop] at h
    rw [runBlock]
    refine Plays.control (.loop st body) (by simp) fun s => ?_
    rw [run_bind, run_loopItems, Block.leads]
    cases itemsOf st s.context with
    | error e => exact .inl ⟨e, rfl, rfl⟩
    | ok items => exact .inr ⟨_, _, rfl, plays_batches st (plays_blocks body h) _, rfl⟩
  | .join st, h => by
    rw [runBlock]
    exact Plays.control (.join st) (by simp) fun s =>
      .inr ⟨jobsOf (f.bodyOf st.id), resume st.id, rfl, h st.id (by simp), rfl⟩

theorem plays_blocks : ∀ bs : List Block,
    (∀ k ∈ joinsOf bs, Plays f b secrets (resume k) (jobsOf (f.bodyOf k))) →
    Plays f b secrets (runBlocks b secrets resume bs) (jobsOf bs)
  | [], _ => by
    rw [runBlocks]
    exact plays_nil
  | block :: rest, h => by
    rw [joinsOf_cons] at h
    rw [runBlocks]
    exact (plays_block block fun k hk => h k (List.mem_append_left _ hk)).seq
      (plays_blocks rest fun k hk => h k (List.mem_append_right _ hk))

theorem plays_arms (value : String) {x : Run Unit} {other : List Block}
    (hother : Plays f b secrets x (jobsOf other)) : ∀ arms : List (String × List Block),
    (∀ a ∈ arms, ∀ k ∈ joinsOf a.2, Plays f b secrets (resume k) (jobsOf (f.bodyOf k))) →
    Plays f b secrets (runArms b secrets resume value x arms) (jobsOf (armFor value other arms))
  | [], _ => by
    rw [runArms]
    exact hother
  | (case, body) :: rest, h => by
    rw [runArms, armFor, List.find?_cons]
    by_cases hc : value = case
    · simpa [hc] using plays_blocks body (h (case, body) List.mem_cons_self)
    · simpa [hc, Ne.symm hc, armFor] using
        plays_arms value hother rest fun a ha => h a (List.mem_cons_of_mem _ ha)

end

theorem bodyOf_eq (hf : flowOf p = .ok f) {c : Continuation} (hc : c ∈ f.continuations) :
    f.bodyOf c.join = c.body := by
  rw [Flow.bodyOf, find?_continuation hf hc]
  rfl

theorem plays_resume (hf : flowOf p = .ok f) {k : String}
    (hk : k ∈ f.continuations.map (·.join)) :
    Plays f b secrets (resumeWithin f b secrets f.continuations.length k)
      (jobsOf (f.bodyOf k)) := by
  refine Flow.join_induct hf (fun c hc ih => ?_) hk
  rw [Flow.resume_eq hf hc, bodyOf_eq hf hc]
  exact plays_blocks _ ih

/-- The execution of a flow does the jobs of its main sequence. -/
theorem Flow.plays_run (hf : flowOf p = .ok f) :
    Plays f b secrets (f.run b secrets) (jobsOf f.main) :=
  plays_blocks _ fun _ hk => plays_resume hf (Flow.Awaits.mem hf (.inl hk))

/-! ## The end of a run -/

theorem Moves.unique : Relator.RightUnique (Moves f b secrets) := by
  rintro _ _ _ ⟨h₁⟩ ⟨h₂⟩
  cases h₁.symm.trans h₂
  rfl

theorem Raises.not_moves {point point' : Point} {e : Raised} {s : RunState}
    (h : Raises f b secrets point e s) : ¬ Moves f b secrets point point' := by
  rintro ⟨hm⟩
  cases h with
  | now hr => cases hr.symm.trans hm

/-- A run has one end. -/
theorem end_unique {point end₁ end₂ : Point} (h₁ : ReflTransGen (Moves f b secrets) point end₁)
    (h₂ : ReflTransGen (Moves f b secrets) point end₂)
    (hend₁ : ∀ point', ¬ Moves f b secrets end₁ point')
    (hend₂ : ∀ point', ¬ Moves f b secrets end₂ point') : end₁ = end₂ := by
  rcases ReflTransGen.total_of_right_unique Moves.unique h₁ h₂ with h | h
  · exact (ReflTransGen.cases_head h).resolve_right fun ⟨_, hm, _⟩ => hend₁ _ hm
  · exact ((ReflTransGen.cases_head h).resolve_right fun ⟨_, hm, _⟩ => hend₂ _ hm).symm

theorem not_moves_nil {s : RunState} (point : Point) : ¬ Moves f b secrets ([], s) point := nofun

section

variable (hf : flowOf p = .ok f) {s s' : RunState} {e : Raised}

include hf

theorem Flow.played_run (s : RunState) :
    Played f b secrets (jobsOf f.main, s) [] ((f.run b secrets).run.run s) := by
  simpa using Flow.plays_run hf s []

/-- The execution of a flow ends well exactly where the run comes to its end. -/
theorem Flow.run_eq_ok :
    (f.run b secrets).run.run s = (.ok (), s') ↔ Completes f b secrets s s' := by
  have hplayed : Played f b secrets (jobsOf f.main, s) [] ((f.run b secrets).run.run s) :=
    Flow.played_run hf s
  constructor
  · intro h
    rw [h] at hplayed
    cases hplayed with
    | through hm => exact hm
  · intro h
    cases hrun : (f.run b secrets).run.run s with
    | mk outcome s'' =>
      rw [hrun] at hplayed
      cases hplayed with
      | through hm => cases end_unique hm h not_moves_nil not_moves_nil; rfl
      | broken hm hr =>
        cases end_unique hm h (fun _ => hr.not_moves) not_moves_nil
        cases hr

/-- The execution of a flow ends in an error exactly where the run comes to a moment that raises
it. -/
theorem Flow.run_eq_error :
    (f.run b secrets).run.run s = (.error e, s') ↔ Breaks f b secrets s e s' := by
  have hplayed : Played f b secrets (jobsOf f.main, s) [] ((f.run b secrets).run.run s) :=
    Flow.played_run hf s
  constructor
  · intro h
    rw [h] at hplayed
    cases hplayed with
    | broken hm hr => exact ⟨_, hm, hr⟩
  · rintro ⟨point, hpoint, hraises⟩
    cases hrun : (f.run b secrets).run.run s with
    | mk outcome s'' =>
      rw [hrun] at hplayed
      cases hplayed with
      | through hm =>
        cases end_unique hm hpoint not_moves_nil fun _ => hraises.not_moves
        cases hraises
      | broken hm hr =>
        cases end_unique hm hpoint (fun _ => hr.not_moves) fun _ => hraises.not_moves
        cases hr with
        | now h₁ =>
          cases hraises with
          | now h₂ => cases h₁.symm.trans h₂; rfl

end

end Handler

end Workflow
