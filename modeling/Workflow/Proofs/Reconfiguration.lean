/-
Plans whose steps are configured otherwise.

Where a change of steps keeps the form of each step, walks of the changed plan are
the changed walks, and its handler is the changed handler but for the guard
(`ofPlan_mapSteps`). Where it keeps what is shown of each step as well, the text is
the same (`code_mapSteps`).
-/
import Workflow.Proofs.Dangling
import Workflow.Proofs.Interface

namespace Workflow

/-- A plan with its steps changed. -/
def Plan.mapSteps (f : Step → Step) (p : Plan) : Plan := { p with steps := p.steps.map f }

/-- A change of steps keeps what says which steps there are and how a walk passes them. -/
structure Plan.SameShape (p : Plan) (f : Step → Step) : Prop where
  id : ∀ s, (f s).id = s.id
  kind : ∀ s, (f s).kind = s.kind
  role : ∀ s, (f s).isTrigger = s.isTrigger
  secrets : ∀ s, (f s).secrets = s.secrets
  form : ∀ id s, p.step? id = some s → (f s).form = s.form

namespace Handler

variable {p : Plan} {f : Step → Step}

/-! ## Blocks -/

mutual

/-- A block with its steps changed, and those of the blocks in it. -/
def Block.mapSteps (f : Step → Step) : Block → Block
  | .trigger s => .trigger (f s)
  | .unsupported s => .unsupported (f s)
  | .action s => .action (f s)
  | .branch s yes no => .branch (f s) (mapBlocks f yes) (mapBlocks f no)
  | .subject s => .subject (f s)
  | .select s arms other => .select (f s) (mapArms f arms) (mapBlocks f other)
  | .loop s body => .loop (f s) (mapBlocks f body)
  | .join s => .join (f s)
  | .unreadable s fault => .unreadable (f s) fault
termination_by structural b => b

/-- Blocks with their steps changed. -/
def mapBlocks (f : Step → Step) : List Block → List Block
  | [] => []
  | b :: rest => b.mapSteps f :: mapBlocks f rest
termination_by structural bs => bs

/-- Arms with the steps of their blocks changed. -/
def mapArms (f : Step → Step) : List (String × List Block) → List (String × List Block)
  | [] => []
  | (value, body) :: rest => (value, mapBlocks f body) :: mapArms f rest
termination_by structural arms => arms

end

@[simp] theorem Block.mapSteps_step (b : Block) : (b.mapSteps f).step = f b.step := by
  cases b <;> rfl

theorem mapArms_eq (arms : List (String × List Block)) :
    mapArms f arms = arms.map fun a => (a.1, mapBlocks f a.2) := by
  induction arms with
  | nil => rfl
  | cons a rest ih => rw [mapArms, ih, List.map_cons]

/-- A visit of the changed block. -/
def Visit.mapSteps (f : Step → Step) (v : Visit) : Visit := ⟨v.block.mapSteps f, v.nesting⟩

mutual

theorem visits_mapSteps : ∀ (b : Block) (n : Nat),
    (b.mapSteps f).visits n = (b.visits n).map (Visit.mapSteps f)
  | .trigger s, n | .unsupported s, n | .action s, n | .subject s, n | .join s, n
  | .unreadable s _, n => rfl
  | .branch s yes no, n => by
    simp only [Block.mapSteps, Block.visits, List.map_cons, List.map_append,
      visitsOf_mapBlocks yes, visitsOf_mapBlocks no]
    rfl
  | .select s arms other, n => by
    simp only [Block.mapSteps, Block.visits, List.map_cons, List.map_append,
      visitsOfArms_mapArms arms, visitsOf_mapBlocks other]
    rfl
  | .loop s body, n => by
    simp only [Block.mapSteps, Block.visits, List.map_cons, visitsOf_mapBlocks body]
    rfl

theorem visitsOf_mapBlocks : ∀ (bs : List Block) (n : Nat),
    visitsOf n (mapBlocks f bs) = (visitsOf n bs).map (Visit.mapSteps f)
  | [], _ => rfl
  | b :: rest, n => by
    rw [mapBlocks, visitsOf, visitsOf, List.map_append, visits_mapSteps b n,
      visitsOf_mapBlocks rest n]

theorem visitsOfArms_mapArms : ∀ (arms : List (String × List Block)) (n : Nat),
    visitsOfArms n (mapArms f arms) = (visitsOfArms n arms).map (Visit.mapSteps f)
  | [], _ => rfl
  | (value, body) :: rest, n => by
    rw [mapArms, visitsOfArms, visitsOfArms, List.map_append, visitsOf_mapBlocks body n,
      visitsOfArms_mapArms rest n]

end

/-! ## Walks -/

theorem step?_mapSteps (hf : p.SameShape f) (id : String) :
    (p.mapSteps f).step? id = (p.step? id).map f := by
  rw [Plan.step?, Plan.mapSteps, List.find?_map]
  simp only [Function.comp_def, hf.id]
  rfl

theorem stepBlocks_mapSteps (hf : p.SameShape f) {id : String} {s : Step}
    (hs : p.step? id = some s) {next next' : Option String → List Block}
    (hn : ∀ t, next' t = mapBlocks f (next t)) :
    stepBlocks (p.mapSteps f) (f s) next' = mapBlocks f (stepBlocks p s next) := by
  have htargets : (p.mapSteps f).nextTarget = p.nextTarget ∧
      (p.mapSteps f).portTarget = p.portTarget := ⟨rfl, rfl⟩
  simp only [stepBlocks, hf.form id s hs, hf.id, htargets, hn]
  cases s.form with
  | select cases => simp [mapBlocks, Block.mapSteps, mapArms_eq, List.map_map, Function.comp_def]
  | trigger | unsupported | action | branch | subject | loop | join | unreadable fault => rfl

theorem walk_mapSteps (hf : p.SameShape f) (path : List String) (start : Option String) :
    walk (p.mapSteps f) path start = mapBlocks f (walk p path start) := by
  induction path, start using walk_induct p with
  | stop path start hw =>
    rw [hw]
    cases start with
    | none => exact walk_none
    | some id =>
      refine walk_eq_nil.mpr ((walk_eq_nil.mp hw).imp_right fun hs => ?_)
      rw [step?_mapSteps hf, hs]
      rfl
  | enter path id s hp hs ih =>
    have hs' : (p.mapSteps f).step? id = some (f s) := by rw [step?_mapSteps hf, hs]; rfl
    rw [walk_enter hp hs, walk_enter hp hs']
    exact stepBlocks_mapSteps hf hs ih

/-! ## Flows -/

/-- A continuation with its steps changed. -/
def Continuation.mapSteps (f : Step → Step) (c : Continuation) : Continuation :=
  { c with body := mapBlocks f c.body }

/-- A flow with its steps changed. -/
def Flow.mapSteps (f : Step → Step) (flow : Flow) : Flow where
  main := mapBlocks f flow.main
  continuations := flow.continuations.map (Continuation.mapSteps f)
  written := flow.written.map (Block.mapSteps f)

/-- A pending visit of the changed block. -/
def Pending.mapSteps (f : Step → Step) (v : Pending) : Pending := ⟨v.within, v.visit.mapSteps f⟩

theorem joinIds_mapSteps (hf : p.SameShape f) : joinIds (p.mapSteps f) = joinIds p := by
  simp [joinIds, Plan.mapSteps, List.filter_map, Function.comp_def, hf.id, hf.kind]

theorem continuationOf_mapSteps (hf : p.SameShape f) (within : List String) (join : String) :
    continuationOf (p.mapSteps f) within join = (continuationOf p within join).mapSteps f := by
  simp only [continuationOf, Continuation.mapSteps, walk_mapSteps hf]
  rfl

theorem innerVisits_mapSteps (hf : p.SameShape f) (within : List String) (join : String) (n : Nat) :
    innerVisits (p.mapSteps f) within join n =
      (innerVisits p within join n).map (Pending.mapSteps f) := by
  simp only [innerVisits, continuationOf_mapSteps hf, Continuation.mapSteps, visitsOf_mapBlocks,
    List.map_map]
  rfl

theorem build_mapSteps (hf : p.SameShape f) (reached : List String) (pending : List Pending) :
    build (p.mapSteps f) reached (pending.map (Pending.mapSteps f)) =
      (build p reached pending).map fun r =>
        (r.1.map (Continuation.mapSteps f), r.2.map (Block.mapSteps f)) := by
  have hjoins := joinIds_mapSteps hf
  induction reached, pending using build.induct p with
  | case1 reached => simp; rfl
  | case2 reached within block nesting rest hn =>
    rw [List.map_cons, build_tooDeep hn]
    exact build_tooDeep hn
  | case3 reached within nesting rest hn s fault =>
    rw [List.map_cons, build_unreadable hn]
    exact build_unreadable hn
  | case4 reached within nesting rest hn s hm c inner ih =>
    rw [show inner = innerVisits p within s.id nesting from rfl, List.map_append,
      ← innerVisits_mapSteps hf] at ih
    have hs : (f s).id = s.id := hf.id s
    have hm' : (f s).id ∈ joinIds (p.mapSteps f) ∧ (f s).id ∉ reached := by rwa [hs, hjoins]
    rw [List.map_cons, build_fresh hn hm.1 hm.2]
    refine (build_fresh hn hm'.1 hm'.2).trans ?_
    rw [hs, ih, continuationOf_mapSteps hf]
    cases build p (s.id :: reached) (innerVisits p within s.id nesting ++ rest) <;> rfl
  | case5 reached within nesting rest hn s hm ih =>
    have hm' : ¬ ((f s).id ∈ joinIds (p.mapSteps f) ∧ (f s).id ∉ reached) := by
      rwa [hf.id, hjoins]
    rw [List.map_cons, build_known hn hm]
    refine (build_known hn hm').trans ?_
    rw [ih]
    cases build p reached rest <;> rfl
  | case6 reached within nesting rest hn block hu hb ih =>
    have hu' : ∀ s fault, block.mapSteps f ≠ .unreadable s fault := by
      cases block <;> simp_all [Block.mapSteps]
    have hb' : ∀ s, block.mapSteps f ≠ .join s := by
      cases block <;> simp_all [Block.mapSteps]
    rw [List.map_cons, build_pass hn hu fun s hs => (hb s hs).elim]
    refine (build_pass hn hu' fun s hs => (hb' s hs).elim).trans ?_
    rw [ih]
    cases build p reached rest <;> rfl

theorem firstStep?_mapSteps (hf : p.SameShape f) : firstStep? (p.mapSteps f) = firstStep? p := by
  simp only [firstStep?, step?_mapSteps hf, Option.map_map, Function.comp_def, hf.role]
  rfl

theorem flowOf_mapSteps (hf : p.SameShape f) :
    flowOf (p.mapSteps f) = (flowOf p).map (Flow.mapSteps f) := by
  have hentry : (p.mapSteps f).entry = p.entry := rfl
  have hpending : (visitsOf 0 (mapBlocks f (walk p [p.entry] (firstStep? p)))).map (⟨[], ·⟩) =
      ((visitsOf 0 (walk p [p.entry] (firstStep? p))).map (⟨[], ·⟩)).map (Pending.mapSteps f) := by
    rw [visitsOf_mapBlocks, List.map_map, List.map_map]
    rfl
  simp only [flowOf, firstStep?_mapSteps hf, walk_mapSteps hf, hentry, hpending, build_mapSteps hf]
  cases build p [] ((visitsOf 0 (walk p [p.entry] (firstStep? p))).map (⟨[], ·⟩)) <;> rfl

/-! ## Handlers -/

/-- A handler with its steps changed, and another guard. -/
def mapSteps (f : Step → Step) (guard : Guard) (h : Handler) : Handler :=
  { h with trigger := f h.trigger, guard, flow := h.flow.mapSteps f }

theorem usedKinds_mapSteps (hf : p.SameShape f) (bs : List Block) :
    usedKinds (bs.map (Block.mapSteps f)) = usedKinds bs := by
  unfold usedKinds
  rw [List.filterMap_map]
  refine congrArg _ (List.filterMap_congr fun b _ => ?_)
  cases b <;> simp [Block.mapSteps, hf.kind]

/-- The handler of a changed plan is the changed handler, where the change can only turn the guard
into another. -/
theorem ofPlan_mapSteps (hf : p.SameShape f) {change : Guard → Guard}
    (hg : ∀ s kind, p.step? p.entry = some s → TriggerKind.ofKind? s.kind = some kind →
      Guard.ofStep kind (f s) = (Guard.ofStep kind s).map change) :
    ofPlan (p.mapSteps f) = (ofPlan p).map fun h => h.mapSteps f (change h.guard) := by
  have hsteps : (p.mapSteps f).steps.map (·.id) = p.steps.map (·.id) := by
    simp [Plan.mapSteps, Function.comp_def, hf.id]
  have hsecrets : ∀ kinds : List String,
      ((p.mapSteps f).steps.filter (·.kind ∈ kinds)).flatMap (·.secrets) =
        (p.steps.filter (·.kind ∈ kinds)).flatMap (·.secrets) := by
    simp [Plan.mapSteps, List.filter_map, List.flatMap_map, Function.comp_def, hf.kind, hf.secrets]
  unfold ofPlan
  rw [step?_mapSteps hf, show (p.mapSteps f).entry = p.entry from rfl]
  cases hs : p.step? p.entry with
  | none => rfl
  | some s =>
    simp only [Option.map_some, hf.kind]
    cases hk : TriggerKind.ofKind? s.kind with
    | none => rfl
    | some kind =>
      simp only [hg s kind hs hk, flowOf_mapSteps hf]
      cases Guard.ofStep kind s with
      | error fault => rfl
      | ok guard =>
        cases flowOf p with
        | error e => rfl
        | ok flow =>
          have hkinds : usedKinds (flow.mapSteps f).written = usedKinds flow.written :=
            usedKinds_mapSteps hf flow.written
          simp only [Except.map, Except.mapError, bind, Except.bind, hkinds, hsteps, hsecrets]
          rfl

/-! ## Texts -/

/-- A change of steps keeps what the text shows of a block's step. -/
def Block.SameText (f : Step → Step) : Block → Prop
  | .trigger _ | .unsupported _ | .join _ | .unreadable .. => True
  | .action s => (f s).data = s.data
  | .branch s _ _ => (f s).condition = s.condition
  | .subject s | .select s _ _ => (f s).subject = s.subject
  | .loop s _ =>
    (f s).iterator = s.iterator ∧ (f s).itemVariable = s.itemVariable ∧
      (f s).batchSize = s.batchSize

theorem writeNodeHead_mapSteps (hf : p.SameShape f) (s : Step) :
    writeNodeHead (f s) = writeNodeHead s := by
  unfold writeNodeHead
  rw [hf.id, hf.kind]

section

variable {h : Handler} {guard : Guard}

mutual

theorem writeBlock_mapSteps (hf : p.SameShape f) : ∀ b : Block, (∀ c ∈ blocksIn [b], c.SameText f) →
    writeBlock (h.mapSteps f guard) (b.mapSteps f) = writeBlock h b
  | .trigger s, hb | .unsupported s, hb | .unreadable s _, hb => by
    funext w
    simp only [Block.mapSteps, writeBlock, writeNodeHead_mapSteps hf, hf.kind]
  | .join s, hb => by
    funext w
    simp only [Block.mapSteps, writeBlock, writeNodeHead_mapSteps hf, hf.id]
    rfl
  | .action s, hb => by
    have hs : (f s).data = s.data := hb (.action s) (by simp [blocksIn, visitsOf, Block.visits])
    funext w
    simp only [Block.mapSteps, writeBlock, writeNodeHead_mapSteps hf, writeAction, isDynamic, hs,
      hf.id, hf.kind]
    rfl
  | .subject s, hb => by
    have hs : (f s).subject = s.subject :=
      hb (.subject s) (by simp [blocksIn, visitsOf, Block.visits])
    funext w
    simp only [Block.mapSteps, writeBlock, writeNodeHead_mapSteps hf, hs, subjectVariable, hf.id]
    rfl
  | .branch s yes no, hb => by
    rw [blocksIn_branch, List.forall_mem_cons, List.forall_mem_append] at hb
    funext w
    have hs : (f s).condition = s.condition := hb.1
    simp only [Block.mapSteps, writeBlock, writeNodeHead_mapSteps hf, hs, conditionVariable, hf.id,
      writeBlocks_mapSteps hf yes hb.2.1, writeBlocks_mapSteps hf no hb.2.2]
    rfl
  | .select s arms other, hb => by
    rw [blocksIn_select, List.forall_mem_cons, List.forall_mem_append] at hb
    funext w
    have hs : (f s).subject = s.subject := hb.1
    simp only [Block.mapSteps, writeBlock, writeNodeHead_mapSteps hf, hs, subjectVariable, hf.id,
      writeArms_mapSteps hf _ _ arms hb.2.1, writeBlocks_mapSteps hf other hb.2.2]
    rfl
  | .loop s body, hb => by
    rw [blocksIn_loop, List.forall_mem_cons] at hb
    obtain ⟨⟨hi, hv, hn⟩, hbody⟩ := hb
    funext w
    simp only [Block.mapSteps, writeBlock, writeNodeHead_mapSteps hf, writeLoopHead, hi, hv, hn,
      hf.id, writeBlocks_mapSteps hf body hbody]
    rfl

theorem writeBlocks_mapSteps (hf : p.SameShape f) : ∀ bs : List Block,
    (∀ c ∈ blocksIn bs, c.SameText f) →
    writeBlocks (h.mapSteps f guard) (mapBlocks f bs) = writeBlocks h bs
  | [], _ => rfl
  | b :: rest, hb => by
    rw [blocksIn_cons, List.forall_mem_append] at hb
    funext w
    rw [mapBlocks, writeBlocks, writeBlocks, writeBlock_mapSteps hf b hb.1,
      writeBlocks_mapSteps hf rest hb.2]

theorem writeArms_mapSteps (hf : p.SameShape f) (target keyword : String) :
    ∀ arms : List (String × List Block),
    (∀ c ∈ arms.flatMap (fun a => blocksIn a.2), c.SameText f) →
    writeArms (h.mapSteps f guard) target keyword (mapArms f arms) = writeArms h target keyword arms
  | [], _ => rfl
  | (value, body) :: rest, hb => by
    rw [List.flatMap_cons, List.forall_mem_append] at hb
    funext w
    rw [mapArms, writeArms, writeArms, writeBlocks_mapSteps hf body hb.1,
      writeArms_mapSteps hf target "elif" rest hb.2]

end

theorem helpers_mapSteps {h : Handler} (hb : ∀ b ∈ h.flow.written, b.SameText f) :
    (h.mapSteps f h.guard).helpers = h.helpers := by
  have hblocks : (h.flow.written.map (Block.mapSteps f)).flatMap Block.helpers =
      h.flow.written.flatMap Block.helpers := by
    rw [List.flatMap_map]
    refine List.flatMap_congr fun b hm => ?_
    have hsame := hb b hm
    cases b with
    | action s =>
      have hs : (f s).data = s.data := hsame
      rw [Block.mapSteps, Block.helpers, Block.helpers, isDynamic, isDynamic, hs]
    | trigger | unsupported | branch | subject | select | loop | join | unreadable => rfl
  unfold helpers
  rw [show (h.mapSteps f h.guard).flow.written = h.flow.written.map (Block.mapSteps f) from rfl,
    hblocks]
  rfl

/-- Where a change of steps keeps what is shown of them, it keeps the text. -/
theorem code_mapSteps (hf : p.SameShape f) {h : Handler} (hp : ofPlan p = .ok h)
    (hb : ∀ b ∈ h.flow.written, b.SameText f) : (h.mapSteps f h.guard).code = h.code := by
  obtain ⟨-, -, -, -, hflow, -⟩ := ofPlan_eq_ok hp
  have himports : writeImports (h.mapSteps f h.guard) = writeImports h := by
    funext w
    unfold writeImports
    rw [helpers_mapSteps hb]
    rfl
  have hblocks : ∀ bs, (∀ b ∈ blocksIn bs, b ∈ h.flow.written) →
      writeBlocks (h.mapSteps f h.guard) (mapBlocks f bs) = writeBlocks h bs := fun bs hbs =>
    writeBlocks_mapSteps hf bs fun b hm => hb b (hbs b hm)
  have hmain : mainBody (h.mapSteps f h.guard) = mainBody h := by
    have hall := hblocks h.flow.main fun b hm => (Flow.mem_written hflow).mpr (.inl hm)
    have hflow' : (h.mapSteps f h.guard).flow.main = mapBlocks f h.flow.main := rfl
    unfold mainBody
    rw [hflow', show (h.mapSteps f h.guard).trigger = f h.trigger from rfl, hf.id, hf.kind]
    cases hm : h.flow.main with
    | nil => rfl
    | cons b rest =>
      rw [hm] at hall
      exact congrFun hall _
  have hcontinuations : writeContinuations (h.mapSteps f h.guard) = writeContinuations h := by
    funext w
    have hflow' : (h.mapSteps f h.guard).flow.continuations =
        h.flow.continuations.map (Continuation.mapSteps f) := rfl
    unfold writeContinuations
    rw [hflow', List.foldl_map]
    refine List.foldl_ext _ _ _ fun w c hc => ?_
    have hall := hblocks c.body fun b hm => (Flow.mem_written hflow).mpr (.inr ⟨c, hc, hm⟩)
    have hbody : continuationBody (h.mapSteps f h.guard) (c.mapSteps f).body =
        continuationBody h c.body := by
      unfold continuationBody
      rw [show (c.mapSteps f).body = mapBlocks f c.body from rfl, hall]
    rw [hbody]
    rfl
  have hfetch : writeFetch (h.mapSteps f h.guard) = writeFetch h := by
    unfold writeFetch
    rw [hmain, hcontinuations]
    rfl
  unfold code document
  rw [himports, hfetch]

end

end Handler

end Workflow
