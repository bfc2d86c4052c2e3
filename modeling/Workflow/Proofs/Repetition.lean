/-
How often a handler without loops calls an action (`called_once_iff`).

A course (`Course`) is what a handler may do when its conditions come out in any
way and an error may end it anywhere; the calls of every run are one
(`Flow.performs_run`). Within a sequence no node is met twice, since each is on
the path of what follows it. But the path of a continuation holds only joins, so
that an action that stands before a join is met again if the continuation of
the join leads back to it. This is the one way in which an action is called
twice (`Flow.Revisits`), and it takes a cycle through a join.
-/
import Workflow.Proofs.Interpretation

namespace Workflow.Handler

open Relation

/-! ## Courses -/

/-- Where a handler is: the nodes that are not entered any more, and the node that comes next. -/
abbrev Place := List String × Option String

/-- The place where a continuation begins. -/
def Continuation.place (p : Plan) (c : Continuation) : Place := (c.within, p.nextTarget c.join)

/-- What a step calls. -/
def called (s : Step) : List String := if s.form = .action then [s.id] else []

/-- The handler goes on from one place to another in a sequence. -/
inductive Passes (p : Plan) : Place → Place → Prop
  | enter {path : List String} {id : String} {s : Step} {t : Option String} :
      id ∉ path → p.step? id = some s → t ∈ stepTargets p s →
      Passes p (path, some id) (id :: path, t)

/-- `Course p f place nodes`: from a place on, the handler may call just these nodes, one after the
other, before it ends. Conditions may come out in any way, and an error may end the course. -/
inductive Course (p : Plan) (f : Flow) : Place → List String → Prop
  | stop {place : Place} : Course p f place []
  | step {path : List String} {id : String} {s : Step} {t : Option String} {nodes : List String} :
      id ∉ path → p.step? id = some s → t ∈ stepTargets p s → Course p f (id :: path, t) nodes →
      Course p f (path, some id) (called s ++ nodes)
  | join {path : List String} {s : Step} {c : Continuation} {nodes : List String} :
      c.join ∉ path → p.step? c.join = some s → s.form = .join → c ∈ f.continuations →
      Course p f (c.place p) nodes → Course p f (path, some c.join) nodes

variable {p : Plan} {f : Flow} {b : Behaviour} {secrets : Value} {resume : String → Run Unit}
  {α β : Type}

theorem Course.action {path : List String} {id : String} {s : Step} {nodes : List String}
    (hp : id ∉ path) (hs : p.step? id = some s) (hform : s.form = .action)
    (h : Course p f (id :: path, p.nextTarget id) nodes) :
    Course p f (path, some id) (id :: nodes) := by
  obtain rfl := Plan.step?_id hs
  simpa [called, hform] using Course.step hp hs (by simp [stepTargets, hform]) h

/-! ## The calls of a run -/

/-- The nodes that have been called. -/
def RunState.nodes (s : RunState) : List String := s.calls.map (·.node)

/-- A part of a run calls the nodes of one of the given lists. -/
def Performs (x : Run α) (T : List String → Prop) : Prop :=
  ∀ s, ∃ nodes, T nodes ∧ RunState.nodes (x.run.run s).2 = RunState.nodes s ++ nodes

/-- A part of a run calls nothing. -/
def Quiet (x : Run α) : Prop := ∀ s, (x.run.run s).2.calls = s.calls

theorem Performs.mono {x : Run α} {T U : List String → Prop} (h : Performs x T)
    (hTU : ∀ nodes, T nodes → U nodes) : Performs x U := fun s =>
  let ⟨nodes, hT, hn⟩ := h s
  ⟨nodes, hTU nodes hT, hn⟩

theorem Quiet.performs {x : Run α} {T : List String → Prop} (hx : Quiet x) (h : T []) :
    Performs x T := fun s => ⟨[], h, by simp [RunState.nodes, hx s]⟩

theorem Quiet.bind {x : Run α} {k : α → Run β} {T : List String → Prop} (hx : Quiet x) (h : T [])
    (hk : ∀ a, Performs (k a) T) : Performs (x >>= k) T := by
  intro s
  have hq := hx s
  rw [run_bind]
  match x.run.run s, hq with
  | (.ok a, s'), hq =>
    obtain ⟨nodes, hT, hn⟩ := hk a s'
    exact ⟨nodes, hT, by simpa [RunState.nodes, show s'.calls = s.calls from hq] using hn⟩
  | (.error e, s'), hq =>
    exact ⟨[], h, by simp [RunState.nodes, show s'.calls = s.calls from hq]⟩

theorem Performs.bind_quiet {x : Run α} {k : α → Run β} {T : List String → Prop} (hx : Performs x T)
    (hk : ∀ a, Quiet (k a)) : Performs (x >>= k) T := by
  intro s
  obtain ⟨nodes, hT, hn⟩ := hx s
  refine ⟨nodes, hT, ?_⟩
  rw [run_bind, ← hn]
  match x.run.run s with
  | (.ok a, s') => simp [RunState.nodes, hk a s']
  | (.error e, s') => rfl

theorem quiet_bind {x : Run α} {k : α → Run β} (hx : Quiet x) (hk : ∀ a, Quiet (k a)) :
    Quiet (x >>= k) := by
  intro s
  have hq := hx s
  rw [run_bind]
  match x.run.run s, hq with
  | (.ok a, s'), hq => exact (hk a s').trans hq
  | (.error e, s'), hq => exact hq

theorem quiet_pure (a : α) : Quiet (pure a : Run α) := fun _ => rfl

theorem quiet_note (message : String) : Quiet (Run.note message) := fun _ => rfl

theorem quiet_inContext (g : Context → Context) : Quiet (Run.inContext g) := fun _ => rfl

theorem quiet_ofAttempt (x : Attempt α) : Quiet (Run.ofAttempt x) := by
  cases x <;> exact fun _ => rfl

theorem quiet_formula (text : String) : Quiet (Run.formula text) :=
  quiet_bind (fun _ => rfl) fun _ => quiet_ofAttempt _

theorem quiet_judge (g : Guard) (now : String) (env : Variables) (r : Request) :
    Quiet (g.judge now env r) := by
  unfold Guard.judge
  split
  · split
    · exact quiet_pure _
    · exact quiet_bind (quiet_inContext _) fun _ => quiet_pure _
  · split
    · exact quiet_pure _
    split
    · exact quiet_pure _
    · exact quiet_bind (quiet_ofAttempt _) fun _ => quiet_bind (quiet_inContext _) fun _ =>
        quiet_pure _
  · split
    · exact quiet_pure _
    refine quiet_bind (quiet_inContext _) fun _ => ?_
    split
    · exact quiet_pure _
    refine quiet_bind (quiet_formula _) fun _ => ?_
    split
    · exact quiet_pure _
    · exact quiet_bind (quiet_note _) fun _ => quiet_pure _

/-- An action is called, or it fails before. -/
theorem runAction_nodes (s : Step) (state : RunState) :
    RunState.nodes ((runAction b secrets s).run.run state).2 = RunState.nodes state ++ [s.id] ∨
      (∃ e, ((runAction b secrets s).run.run state).1 = .error e) ∧
        RunState.nodes ((runAction b secrets s).run.run state).2 = RunState.nodes state := by
  simp only [runAction, Run.inContext, Run.note, run_bind, run_get, run_modify, run_ofAttempt]
  cases s.props _ with
  | error e => exact .inr ⟨⟨e, rfl⟩, rfl⟩
  | ok props =>
    left
    dsimp only
    cases b state.calls ⟨s.id, s.kind, props, secrets⟩ <;> simp [RunState.nodes]

/-- What follows an action adds to its call; there is no call, or no more, if it fails. -/
theorem performs_action {s : Step} {k : Run Unit} {T : List String → Prop} (hempty : T [])
    (hsingle : T [s.id]) (hk : Performs k fun nodes => T (s.id :: nodes)) :
    Performs (runAction b secrets s >>= fun _ => k) T := by
  intro state
  have ha := @runAction_nodes b secrets s state
  rw [run_bind]
  match (runAction b secrets s).run.run state, ha with
  | (.error e, s'), .inl hn => exact ⟨_, hsingle, hn⟩
  | (.error e, s'), .inr ⟨_, hn⟩ => exact ⟨[], hempty, by simpa using hn⟩
  | (.ok (), s'), .inl hn =>
    obtain ⟨nodes, hT, hk⟩ := hk s'
    refine ⟨_, hT, ?_⟩
    rw [hk, show RunState.nodes s' = _ from hn]
    simp

/-- One step: if what follows keeps to its courses, so does the step. -/
theorem performs_stepBlocks {path : List String} {id : String} {s : Step}
    {next : Option String → List Block} (hp : id ∉ path) (hs : p.step? id = some s)
    (hloop : s.form ≠ .loop)
    (hjoin : s.form = .join → Performs (resume s.id) (Course p f (path, some s.id)))
    (hnext : ∀ t ∈ stepTargets p s,
      Performs (runBlocks b secrets resume (next t)) (Course p f (id :: path, t))) :
    Performs (runBlocks b secrets resume (stepBlocks p s next)) (Course p f (path, some id)) := by
  obtain rfl := Plan.step?_id hs
  have hgo : s.form ≠ .action → ∀ t ∈ stepTargets p s,
      Performs (runBlocks b secrets resume (next t)) (Course p f (path, some s.id)) :=
    fun hna t ht => (hnext t ht).mono fun _ hc => by
      simpa [called, hna] using Course.step hp hs ht hc
  unfold stepTargets at hgo hnext
  unfold stepBlocks
  cases hf : s.form with
  | trigger | unsupported =>
    simp only [hf, ne_eq, reduceCtorEq, not_false_eq_true, forall_true_left, List.mem_singleton,
      forall_eq] at hgo
    simp only [runBlocks, runBlock]
    exact (quiet_note _).bind .stop fun _ => hgo
  | action =>
    simp only [hf, List.mem_singleton, forall_eq] at hnext
    simp only [runBlocks, runBlock, bind_assoc]
    refine (quiet_note _).bind .stop fun _ => performs_action .stop (.action hp hs hf .stop) ?_
    exact hnext.mono fun _ hc => .action hp hs hf hc
  | branch =>
    simp only [hf, ne_eq, reduceCtorEq, not_false_eq_true, forall_true_left] at hgo
    have hyes := hgo (p.portTarget s.id "true") (by simp)
    have hno := hgo (p.portTarget s.id "false") (by simp)
    simp only [runBlocks, runBlock, bind_assoc]
    refine (quiet_note _).bind .stop fun _ => (quiet_formula _).bind .stop fun v => ?_
    split <;> simpa
  | subject =>
    simp only [hf, ne_eq, reduceCtorEq, not_false_eq_true, forall_true_left, List.mem_singleton,
      forall_eq] at hgo
    simp only [runBlocks, runBlock, bind_assoc, pure_bind]
    exact (quiet_note _).bind .stop fun _ => (quiet_formula _).bind .stop fun _ => hgo
  | select cases =>
    simp only [hf, ne_eq, reduceCtorEq, not_false_eq_true, forall_true_left, List.mem_append,
      List.mem_map, List.mem_singleton] at hgo
    have hother := hgo (p.portTarget s.id "default") (.inr rfl)
    have hcase := fun c hc => hgo (p.portTarget s.id c) (.inl ⟨c, hc, rfl⟩)
    simp only [runBlocks, runBlock, bind_assoc, runArms_eq]
    refine (quiet_note _).bind .stop fun _ => (quiet_formula _).bind .stop fun v =>
      (quiet_ofAttempt _).bind .stop fun text => ?_
    cases hc : cases.find? (· = text) with
    | none => simpa using hother
    | some c => simpa using hcase c (List.mem_of_find?_eq_some hc)
  | loop => exact absurd hf hloop
  | join =>
    simp only [runBlocks, runBlock, bind_assoc]
    exact (quiet_note _).bind .stop fun _ => by simpa using hjoin hf
  | unreadable fault =>
    simp only [runBlocks, runBlock]
    exact (quiet_note _).bind .stop fun _ => (quiet_pure ()).performs .stop

section

variable (hloop : ∀ s ∈ p.steps, s.form ≠ .loop)

include hloop

theorem performs_walk (path : List String) (start : Option String)
    (hres : ∀ k ∈ joinsOf (walk p path start), ∃ c ∈ f.continuations, c.join = k ∧
      Performs (resume k) (Course p f (c.place p))) :
    Performs (runBlocks b secrets resume (walk p path start)) (Course p f (path, start)) := by
  induction path, start using walk_induct p with
  | stop path start hw =>
    rw [hw, runBlocks]
    exact (quiet_pure ()).performs .stop
  | enter path id s hp hs ih =>
    have hid := Plan.step?_id hs
    rw [walk_enter hp hs] at hres ⊢
    have hnl := hloop s (List.mem_of_find?_eq_some hs)
    refine performs_stepBlocks hp hs hnl (fun hj => ?_) fun t ht => ?_
    · obtain ⟨c, hc, hcj, hperf⟩ := hres s.id (by simp [stepBlocks, hj])
      refine hperf.mono fun nodes hn => ?_
      rw [← hcj]
      exact .join (by rwa [hcj, hid]) (by rwa [hcj, hid]) hj hc hn
    · refine ih t fun k hk => hres k ?_
      obtain ⟨j, hb, rfl⟩ := mem_joinsOf.mp hk
      exact mem_joinsOf.mpr ⟨j, mem_blocksIn_of_target ht hb, rfl⟩

/-- What is resumed at a join keeps to the courses of its continuation. -/
theorem performs_resume (hf : flowOf p = .ok f) {k : String}
    (hk : k ∈ f.continuations.map (·.join)) : ∃ c ∈ f.continuations, c.join = k ∧
      Performs (resumeWithin f b secrets f.continuations.length k) (Course p f (c.place p)) := by
  refine Flow.join_induct hf (fun c hc ih => ⟨c, hc, rfl, ?_⟩) hk
  rw [Flow.resume_eq hf hc]
  rw [Flow.body_eq hf hc] at ih ⊢
  exact performs_walk hloop _ _ ih

/-- The calls of a flow are a course. -/
theorem Flow.performs_run (hf : flowOf p = .ok f) :
    Performs (f.run b secrets) (Course p f ([p.entry], firstStep? p)) := by
  have hmain := (flowOf_eq_ok hf).1
  rw [Flow.run, hmain]
  refine performs_walk hloop _ _ fun k hk => performs_resume hloop hf (Flow.Awaits.mem hf (.inl ?_))
  rwa [hmain]

/-- The calls of a handler are a course, whatever it answers. -/
theorem fetch_course {h : Handler} (hf : flowOf p = .ok h.flow) (b : Behaviour) (o : Occasion)
    (env : Variables) (r : Request) :
    Course p h.flow ([p.entry], firstStep? p) (RunState.nodes (h.fetch b o env r).2) := by
  have hattempt : Performs (h.attempt b o.now env r)
      (Course p h.flow ([p.entry], firstStep? p)) := by
    refine (quiet_judge h.guard o.now env r).bind .stop fun verdict => ?_
    cases verdict with
    | refused reason =>
      exact (quiet_bind (fun _ => rfl) fun _ => quiet_ofAttempt _).performs .stop
    | skipped => exact (quiet_pure _).performs .stop
    | accepted =>
      exact (Flow.performs_run hloop hf).bind_quiet fun _ => quiet_bind (fun _ => rfl) fun _ =>
        quiet_bind (fun _ => rfl) fun _ => quiet_ofAttempt _
  obtain ⟨nodes, hc, hn⟩ := hattempt (start o env)
  have hfetch : RunState.nodes (h.fetch b o env r).2 = nodes := by
    rw [RunState.nodes, fetch_calls]
    exact hn
  rwa [hfetch]

end

/-! ## Calling an action twice -/

/-- An action stands in a sequence. -/
def Acts (a : String) (bs : List Block) : Prop := ∃ s, Block.action s ∈ blocksIn bs ∧ s.id = a

namespace Flow

/-- A sequence of a flow begins at a place. -/
def Begins (p : Plan) (f : Flow) (place : Place) : Prop :=
  place = ([p.entry], firstStep? p) ∨ ∃ c ∈ f.continuations, place = c.place p

/-- What is left of a sequence of a flow from some place on. -/
def Part (p : Plan) (f : Flow) (bs : List Block) : Prop :=
  ∃ first place, f.Begins p first ∧ ReflTransGen (Passes p) first place ∧
    bs = walk p place.1 place.2

/-- After an action a join follows, and the continuation of the join or one that is resumed from
there holds the action once more. -/
def Revisits (p : Plan) (f : Flow) (a : String) : Prop :=
  ∃ s rest k c, f.Part p (.action s :: rest) ∧ s.id = a ∧ k ∈ joinsOf rest ∧
    c ∈ f.continuations ∧ ReflTransGen f.Resumes k c.join ∧ Acts a c.body

end Flow

section

variable {path : List String} {id : String} {s : Step}

theorem exists_step (h : id ∈ joinIds p) : ∃ s, p.step? id = some s := by
  obtain ⟨s, hs, rfl⟩ := List.mem_map.mp h
  have hsome : (p.step? s.id).isSome :=
    List.find?_isSome.mpr ⟨s, List.mem_of_mem_filter hs, by simp⟩
  exact Option.isSome_iff_exists.mp hsome

theorem walk_action (hp : id ∉ path) (hs : p.step? id = some s) (h : s.form = .action) :
    walk p path (some id) = .action s :: walk p (id :: path) (p.nextTarget id) := by
  rw [walk_enter hp hs, stepBlocks, h, Plan.step?_id hs]

theorem walk_join (hp : id ∉ path) (hs : p.step? id = some s) (h : s.form = .join) :
    walk p path (some id) = [.join s] := by
  rw [walk_enter hp hs, stepBlocks, h]

theorem walk_eq_action {start : Option String} {rest : List Block}
    (h : walk p path start = .action s :: rest) : start = some s.id ∧ s.id ∉ path ∧
      p.step? s.id = some s ∧ s.form = .action ∧
      rest = walk p (s.id :: path) (p.nextTarget s.id) := by
  match start with
  | none => simp at h
  | some id =>
    have hp : id ∉ path := fun hm => by simp [walk_mem hm] at h
    cases hs : p.step? id with
    | none => simp [walk_missing hs] at h
    | some s' =>
      obtain rfl := Plan.step?_id hs
      rw [walk_enter hp hs, stepBlocks] at h
      split at h <;> simp only [List.cons.injEq, reduceCtorEq, false_and] at h
      next hform =>
        cases h.1
        exact ⟨rfl, hp, hs, hform, h.2.symm⟩

/-- The blocks from a later place on are among those from an earlier one on. -/
theorem Passes.blocks_subset {place place' : Place} (h : Passes p place place') {block : Block}
    (hb : block ∈ blocksIn (walk p place'.1 place'.2)) :
    block ∈ blocksIn (walk p place.1 place.2) := by
  cases h with
  | enter hp hs ht =>
    rw [walk_enter hp hs]
    exact mem_blocksIn_of_target ht hb

end

/-- A node that is called stands in the sequence or in a continuation that is resumed. -/
theorem Course.acts (hf : flowOf p = .ok f) {place : Place} {nodes : List String}
    (h : Course p f place nodes) {a : String} (ha : a ∈ nodes) :
    Acts a (walk p place.1 place.2) ∨ ∃ k ∈ joinsOf (walk p place.1 place.2), ∃ c ∈ f.continuations,
      ReflTransGen f.Resumes k c.join ∧ Acts a c.body := by
  induction h with
  | stop => simp at ha
  | @step path id s t nodes hp hs ht _ ih =>
    rcases List.mem_append.mp ha with ha | ha
    · unfold called at ha
      split at ha
      next hform =>
        rw [List.mem_singleton] at ha
        refine .inl ⟨s, ?_, ha.symm⟩
        rw [walk_action hp hs hform]
        exact List.mem_cons_self
      · simp at ha
    · have hpass : Passes p (path, some id) (id :: path, t) := .enter hp hs ht
      rcases ih ha with ⟨j, hj, hja⟩ | ⟨k, hk, hc⟩
      · exact .inl ⟨j, hpass.blocks_subset hj, hja⟩
      · obtain ⟨j, hj, rfl⟩ := mem_joinsOf.mp hk
        exact .inr ⟨j.id, mem_joinsOf.mpr ⟨j, hpass.blocks_subset hj, rfl⟩, hc⟩
  | @join path s c nodes hp hs hform hc _ ih =>
    right
    have hid := Plan.step?_id hs
    refine ⟨c.join, by simp [walk_join hp hs hform, hid], ?_⟩
    simp only [Continuation.place, ← Flow.body_eq hf hc] at ih
    rcases ih ha with hacts | ⟨k, hk, d, hd, hres, hacts⟩
    · exact ⟨c, hc, .refl, hacts⟩
    · exact ⟨d, hd, .head ⟨c, hc, rfl, hk⟩ hres, hacts⟩

/-- If an action is called twice, the flow comes back to it. -/
theorem Course.revisits (hf : flowOf p = .ok f) {place : Place} {nodes : List String}
    (h : Course p f place nodes) {a : String} (ha : 2 ≤ nodes.count a) {first : Place}
    (hfirst : f.Begins p first) (hpart : ReflTransGen (Passes p) first place) : f.Revisits p a := by
  induction h generalizing first with
  | stop => simp at ha
  | @step path id s t nodes hp hs ht hcourse ih =>
    by_cases hcall : a ∈ called s
    · unfold called at ha hcall
      split at hcall
      next hform =>
        simp only [hform, if_true, List.singleton_append] at ha
        obtain rfl := List.mem_singleton.mp hcall
        obtain rfl := Plan.step?_id hs
        obtain rfl : t = p.nextTarget s.id := by simpa [stepTargets, hform] using ht
        have hmem : s.id ∈ nodes := List.count_pos_iff.mp (by simpa using ha)
        rcases hcourse.acts hf hmem with ⟨j, hj, hja⟩ | ⟨k, hk, c, hc, hres, hacts⟩
        · exact absurd (hja ▸ List.mem_cons_self) (mem_walk hj).2.1
        · exact ⟨s, _, k, c, ⟨first, _, hfirst, hpart, (walk_action hp hs hform).symm⟩, rfl, hk, hc,
            hres, hacts⟩
      · simp at hcall
    · rw [List.count_append, List.count_eq_zero.mpr hcall, Nat.zero_add] at ha
      exact ih ha hfirst (hpart.tail (.enter hp hs ht))
  | join hp hs hform hc _ ih => exact ih ha (.inr ⟨_, hc, rfl⟩) .refl

/-! ## Courses through given places -/

/-- The handler can come to every block of a sequence. -/
theorem passes_of_mem {path : List String} {start : Option String} {block : Block}
    (h : block ∈ blocksIn (walk p path start)) :
    ∃ path', ReflTransGen (Passes p) (path, start) (path', some block.step.id) ∧
      block.step.id ∉ path' := by
  induction path, start using walk_induct p with
  | stop path start hw => simp [hw] at h
  | enter path id s hp hs ih =>
    rw [walk_enter hp hs] at h
    rcases mem_blocksIn_stepBlocks h with ⟨rfl, -⟩ | ⟨t, ht, hb⟩
    · rw [Plan.step?_id hs]
      exact ⟨path, .refl, hp⟩
    · obtain ⟨path', hpass, hn⟩ := ih t hb
      exact ⟨path', .head (.enter hp hs ht) hpass, hn⟩

/-- A course can be taken up at an earlier place. -/
theorem Course.of_passes {place place' : Place} {nodes : List String}
    (h : ReflTransGen (Passes p) place place') (hc : Course p f place' nodes) :
    ∃ before, Course p f place (before ++ nodes) := by
  induction h using ReflTransGen.head_induction_on with
  | refl => exact ⟨[], hc⟩
  | head hpass _ ih =>
    obtain ⟨before, hc⟩ := ih
    cases hpass with
    | @enter path id s t hp hs ht =>
      refine ⟨called s ++ before, ?_⟩
      rw [List.append_assoc]
      exact .step hp hs ht hc

theorem Course.of_join (place : Place) {c : Continuation} {nodes : List String}
    (hc : c ∈ f.continuations) (hk : c.join ∈ joinsOf (walk p place.1 place.2))
    (h : Course p f (c.place p) nodes) : ∃ before, Course p f place (before ++ nodes) := by
  obtain ⟨s, hs, hid⟩ := mem_joinsOf.mp hk
  obtain ⟨hstep, -, hform⟩ := mem_walk hs
  obtain ⟨path', hpass, hn⟩ := passes_of_mem hs
  simp only [Block.step, hid] at hstep hpass hn
  exact Course.of_passes hpass (.join hn hstep hform.symm hc h)

theorem Course.of_acts (place : Place) {a : String} (h : Acts a (walk p place.1 place.2)) :
    ∃ nodes, Course p f place nodes ∧ a ∈ nodes := by
  obtain ⟨s, hs, rfl⟩ := h
  obtain ⟨hstep, -, hform⟩ := mem_walk hs
  obtain ⟨path', hpass, hn⟩ := passes_of_mem hs
  obtain ⟨before, hc⟩ := Course.of_passes hpass (.action hn hstep hform.symm .stop)
  exact ⟨_, hc, by simp [Block.step]⟩

namespace Flow

section

variable (hf : flowOf p = .ok f)

include hf

/-- A course of one continuation can be taken up in every other that leads to it. -/
theorem course_of_resumes {c d : Continuation} (hc : c ∈ f.continuations) (hd : d ∈ f.continuations)
    (h : ReflTransGen f.Resumes c.join d.join) {nodes : List String}
    (hn : Course p f (d.place p) nodes) : ∃ before, Course p f (c.place p) (before ++ nodes) := by
  have hunique : ∀ {c d}, c ∈ f.continuations → d ∈ f.continuations → c.join = d.join → c = d :=
    fun hc hd => List.inj_on_of_nodup_map (joins_nodup hf) hc hd
  generalize hk : c.join = k at h
  induction h using ReflTransGen.head_induction_on generalizing c with
  | refl => exact ⟨[], hunique hc hd hk ▸ hn⟩
  | @head k k' hres _ ih =>
    obtain ⟨c', hc', rfl, hk'⟩ := hres
    obtain rfl := hunique hc hc' hk
    obtain ⟨e, he, rfl⟩ := List.mem_map.mp (Awaits.mem hf (.inr ⟨c, hc, hk'⟩))
    obtain ⟨before, hcourse⟩ := ih he rfl
    obtain ⟨before', hcourse⟩ := Course.of_join (c.place p) he
      (by rwa [body_eq hf hc] at hk') hcourse
    exact ⟨before' ++ before, by rwa [List.append_assoc]⟩

/-- Every continuation is resumed, in the end, from the main sequence. -/
theorem exists_resumes {c : Continuation} (hc : c ∈ f.continuations) :
    ∃ k ∈ joinsOf f.main, ReflTransGen f.Resumes k c.join := by
  have hreach : ∀ s, (Block.join s ∈ blocksIn f.main ∨ ∃ d ∈ f.continuations,
      (∃ k ∈ joinsOf f.main, ReflTransGen f.Resumes k d.join) ∧ .join s ∈ blocksIn d.body) →
      ∃ k ∈ joinsOf f.main, ReflTransGen f.Resumes k s.id := by
    rintro s (hs | ⟨d, hd, ⟨k, hk, hres⟩, hs⟩)
    · exact ⟨s.id, mem_joinsOf.mpr ⟨s, hs, rfl⟩, .refl⟩
    · exact ⟨k, hk, hres.tail ⟨d, hd, rfl, mem_joinsOf.mpr ⟨s, hs, rfl⟩⟩⟩
  obtain ⟨within, s, hs, rfl⟩ := (flowOf_eq_ok hf).2.exists_join
    (P := fun _ b => b ∈ blocksIn f.main ∨ ∃ d ∈ f.continuations,
      (∃ k ∈ joinsOf f.main, ReflTransGen f.Resumes k d.join) ∧ b ∈ blocksIn d.body)
    (fun v hv => by
      obtain ⟨visit, hvisit, rfl⟩ := List.mem_map.mp hv
      exact .inl (List.mem_map_of_mem hvisit))
    (fun within s hs hm b hb => .inr ⟨_, hm, hreach s hs, hb⟩) c hc
  exact hreach s hs

/-- A course from the beginning of a sequence can be taken up in the main sequence. -/
theorem course_of_begins {first : Place} (hfirst : f.Begins p first) {nodes : List String}
    (h : Course p f first nodes) :
    ∃ before, Course p f ([p.entry], firstStep? p) (before ++ nodes) := by
  rcases hfirst with rfl | ⟨c, hc, rfl⟩
  · exact ⟨[], h⟩
  obtain ⟨k, hk, hres⟩ := exists_resumes hf hc
  obtain ⟨d, hd, rfl⟩ := List.mem_map.mp (Awaits.mem hf (.inl hk))
  obtain ⟨before, hcourse⟩ := course_of_resumes hf hd hc hres h
  obtain ⟨before', hcourse⟩ := Course.of_join ([p.entry], firstStep? p) hd
    (by rwa [(flowOf_eq_ok hf).1] at hk) hcourse
  exact ⟨before' ++ before, by rwa [List.append_assoc]⟩

/-- A flow that comes back to an action may call it twice. -/
theorem Revisits.course {a : String} (h : f.Revisits p a) :
    ∃ nodes, Course p f ([p.entry], firstStep? p) nodes ∧ 2 ≤ nodes.count a := by
  obtain ⟨s, rest, k, c, ⟨first, place, hfirst, hpass, hrest⟩, rfl, hk, hc, hres, hacts⟩ := h
  obtain ⟨hstart, hp, hs, hform, rfl⟩ := walk_eq_action hrest.symm
  obtain ⟨d, hd, rfl⟩ : ∃ d ∈ f.continuations, d.join = k := by
    rcases hres.cases_head with rfl | ⟨_, ⟨d, hd, hdk, -⟩, -⟩
    · exact ⟨c, hc, rfl⟩
    · exact ⟨d, hd, hdk⟩
  obtain ⟨l₁, hl₁, ha⟩ := Course.of_acts (f := f) (c.place p)
    (by rwa [body_eq hf hc] at hacts)
  obtain ⟨l₂, hl₂⟩ := course_of_resumes hf hd hc hres hl₁
  obtain ⟨l₃, hl₃⟩ := Course.of_join (s.id :: place.1, p.nextTarget s.id) hd hk hl₂
  have hcall : Course p f place (s.id :: (l₃ ++ (l₂ ++ l₁))) := by
    rw [show place = (place.1, some s.id) from Prod.ext rfl hstart]
    exact .action hp hs hform hl₃
  obtain ⟨l₄, hl₄⟩ := Course.of_passes hpass hcall
  obtain ⟨l₅, hl₅⟩ := course_of_begins hf hfirst hl₄
  refine ⟨_, hl₅, ?_⟩
  have hcount : 0 < l₁.count s.id := List.count_pos_iff.mpr ha
  simp only [List.count_append, List.count_cons_self]
  omega

/-- To come back to an action takes a cycle through a join. -/
theorem Revisits.cycle {a : String} (h : f.Revisits p a) :
    ∃ m ∈ joinIds p, TransGen p.Leads a m ∧ TransGen p.Leads m a := by
  have hlead : ∀ {c}, c ∈ f.continuations → ∀ {block}, block ∈ blocksIn c.body →
      TransGen p.Leads c.join block.step.id := by
    intro c hc block hb
    obtain ⟨s, hs⟩ := exists_step (joins_subset hf _ (List.mem_map_of_mem hc))
    rw [body_eq hf hc] at hb
    obtain ⟨t, ht, hr⟩ := walk_reaches hb
    exact .head' (Plan.leads_nextTarget hs ht) hr
  have hresumes : ∀ {m k}, ReflTransGen f.Resumes m k → ReflTransGen p.Leads m k := by
    intro m k hmk
    induction hmk with
    | refl => exact .refl
    | tail _ hres ih =>
      obtain ⟨c, hc, rfl, hk⟩ := hres
      obtain ⟨s, hs, rfl⟩ := mem_joinsOf.mp hk
      exact ih.trans (hlead hc hs).to_reflTransGen
  obtain ⟨s, rest, k, c, ⟨first, place, -, -, hrest⟩, rfl, hk, hc, hres, ⟨s', hs', hid⟩⟩ := h
  obtain ⟨-, -, hs, -, rfl⟩ := walk_eq_action hrest.symm
  refine ⟨k, (mem_joinsOf_walk hk).1, ?_, ?_⟩
  · obtain ⟨j, hj, rfl⟩ := mem_joinsOf.mp hk
    obtain ⟨t, ht, hr⟩ := walk_reaches hj
    exact .head' (Plan.leads_nextTarget hs ht) hr
  · have := hlead hc hs'
    rw [Block.step, hid] at this
    exact TransGen.trans_right (hresumes hres) this

end

end Flow

/-- **An action is called twice exactly where a flow comes back to it through a join.** The calls of
every run of a handler without loops are a course. No course calls an action twice unless the flow
revisits it, and if it does, some course does; then a join shares a cycle with the action. -/
theorem called_once_iff {h : Handler} (hp : ofPlan p = .ok h)
    (hloop : ∀ s ∈ p.steps, s.form ≠ .loop) (a : String) :
    (∀ b o env r,
        Course p h.flow ([p.entry], firstStep? p) (RunState.nodes (h.fetch b o env r).2)) ∧
      ((∀ nodes, Course p h.flow ([p.entry], firstStep? p) nodes → nodes.count a ≤ 1) ↔
        ¬ h.flow.Revisits p a) ∧
      (h.flow.Revisits p a → ∃ m ∈ joinIds p, TransGen p.Leads a m ∧ TransGen p.Leads m a) := by
  obtain ⟨-, -, -, -, hf, -⟩ := ofPlan_eq_ok hp
  refine ⟨fetch_course hloop hf, ⟨fun hle hrev => ?_, fun hrev nodes hc => ?_⟩,
    Flow.Revisits.cycle hf⟩
  · obtain ⟨nodes, hc, hcount⟩ := Flow.Revisits.course hf hrev
    have := hle nodes hc
    omega
  · by_contra hcount
    exact hrev (hc.revisits hf (by omega) (.inl rfl) .refl)

/-- An action, a join after it, and an edge back from the join to the action. -/
def echo : Plan where
  steps := [
    { id := "start", kind := "trigger-manual", role := .trigger, data := [], structural := false,
      category := .core },
    { id := "say", kind := "value", role := .action, data := [("value", .int 1)],
      structural := false, category := .core },
    { id := "again", kind := "merge", role := .action, data := [], structural := true,
      category := .core }]
  edges := [
    { source := "start", target := "say" },
    { source := "say", target := "again" },
    { source := "again", target := "say" }]
  entry := "start"
  hasCycle := true
  depth := 3

theorem echo_noLoop : ∀ s ∈ echo.steps, s.form ≠ .loop := by decide

theorem echo_nodes {h : Handler} (hp : ofPlan echo = .ok h) : RunState.nodes
    (h.fetch (fun _ _ => .ok (.int 1)) ⟨"now", "w", "e"⟩ [] signedIn).2 = ["say", "say"] := by
  have hrun : (ofPlan echo).toOption.map (fun h => RunState.nodes
      ((h.flow.run (fun _ _ => .ok (.int 1)) (h.secretsIn [])).run.run
        { start ⟨"now", "w", "e"⟩ [] with
          context := ((start ⟨"now", "w", "e"⟩ []).context.bind "input" signedIn.jsonBody).bind
            "triggeredAt" (.str "now") }).2) = some ["say", "say"] := by
    cbv
  rw [hp] at hrun
  rw [fetch_accepted (guard_manual hp rfl rfl ▸ judge_manual _ _ signedIn_token _)]
  simp only [RunState.nodes, (conclude_calls _).1]
  exact Option.some.inj hrun

theorem echo_called_twice : ∃ h, ofPlan echo = .ok h ∧ (∀ s ∈ echo.steps, s.form ≠ .loop) ∧
    RunState.nodes (h.fetch (fun _ _ => .ok (.int 1)) ⟨"now", "w", "e"⟩ [] signedIn).2 =
      ["say", "say"] := by
  obtain ⟨h, hp⟩ := exists_eq_ok (x := ofPlan echo) (by cbv)
  exact ⟨h, hp, echo_noLoop, echo_nodes hp⟩

theorem echo_revisits : ∃ h, ofPlan echo = .ok h ∧ (∀ s ∈ echo.steps, s.form ≠ .loop) ∧
    h.flow.Revisits echo "say" ∧
    ∃ m ∈ joinIds echo, TransGen echo.Leads "say" m ∧ TransGen echo.Leads m "say" := by
  obtain ⟨h, hp⟩ := exists_eq_ok (x := ofPlan echo) (by cbv)
  obtain ⟨hcourse, honce, hcycle⟩ := called_once_iff hp echo_noLoop "say"
  have hrev : h.flow.Revisits echo "say" := by
    by_contra hno
    have hcount : ["say", "say"].count "say" ≤ 1 :=
      honce.mpr hno _ (echo_nodes hp ▸ hcourse _ _ _ _)
    simp at hcount
  exact ⟨h, hp, echo_noLoop, hrev, hcycle hrev⟩

end Workflow.Handler
