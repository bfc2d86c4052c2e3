/-
The flow of a handler: what it does after its trigger, as a tree.

A walk follows the edges from a node. Steps follow each other in a sequence;
the arms of a branch or a selection and the body of a loop are sequences of
their own. A node that is already on the path to it is not entered again, so
that a walk ends on cycles too.

What follows a join is walked once, as a continuation, wherever the join is
reached first; all arms that reach the join resume it. The path to a
continuation holds the joins whose continuations are being built, so that no
continuation resumes one of these.
-/
import Workflow.Handler.Reading

namespace Workflow.Handler

/-- A node in the flow of a handler, with what hangs on it. -/
inductive Block where
  /-- A trigger that is reached by an edge: nothing is done. -/
  | trigger (step : Step)
  /-- A construct that is not known: nothing is done. -/
  | unsupported (step : Step)
  | action (step : Step)
  | branch (step : Step) (yes no : List Block)
  /-- A selection without cases: its subject is evaluated, and the sequence goes on. -/
  | subject (step : Step)
  | select (step : Step) (arms : List (String × List Block)) (other : List Block)
  | loop (step : Step) (body : List Block)
  | join (step : Step)
  /-- A selection whose cases cannot be read. -/
  | unreadable (step : Step) (fault : Fault)
  deriving Inhabited

def Block.step : Block → Step
  | trigger s | unsupported s | action s | branch s .. | subject s | select s .. | loop s _ | join s
  | unreadable s _ => s

def stepIds (p : Plan) : List String := p.steps.map (·.id)

theorem mem_stepIds {p : Plan} {id : String} {s : Step} (h : p.step? id = some s) :
    id ∈ stepIds p := by
  have hm := List.mem_of_find?_eq_some h
  have he := List.find?_some h
  simp only [decide_eq_true_eq] at he
  exact List.mem_map.2 ⟨s, hm, he⟩

/-- The blocks from a node on, entering no node of the path. -/
def walk (p : Plan) (path : List String) (start : Option String) : List Block :=
  match start with
  | none => []
  | some id =>
    if _hp : id ∈ path then []
    else
      match _hs : p.step? id with
      | none => []
      | some s =>
        let path' := id :: path
        if s.isTrigger then .trigger s :: walk p path' (p.nextTarget id)
        else if s.structural then
          match Structure.ofKind? s.kind with
          | some .branch =>
            [.branch s (walk p path' (p.portTarget id "true")) (walk p path' (p.portTarget id "false"))]
          | some .select =>
            match s.cases with
            | .error f => [.unreadable s f]
            | .ok [] => .subject s :: walk p path' (p.portTarget id "default")
            | .ok cases =>
              [.select s (cases.map fun c => (c, walk p path' (p.portTarget id c)))
                (walk p path' (p.portTarget id "default"))]
          | some .loop =>
            .loop s (walk p path' (p.portTarget id "body")) :: walk p path' (p.portTarget id "done")
          | some .join => [.join s]
          | none => .unsupported s :: walk p path' (p.nextTarget id)
        else .action s :: walk p path' (p.nextTarget id)
termination_by (Graph.unseen (stepIds p) path).length
decreasing_by all_goals exact Graph.length_unseen_cons_lt (mem_stepIds _hs) _hp

/-- A block that is reached, and how many arms it is nested in. -/
structure Visit where
  block : Block
  nesting : Nat
  deriving Inhabited

mutual

/-- The blocks of a block in the order in which they are written, the block itself first. -/
def Block.visits (nesting : Nat) : Block → List Visit
  | .branch s yes no =>
    ⟨.branch s yes no, nesting⟩ :: (visitsOf (nesting + 1) yes ++ visitsOf (nesting + 1) no)
  | .select s arms other =>
    ⟨.select s arms other, nesting⟩ ::
      (visitsOfArms (nesting + 1) arms ++ visitsOf (nesting + 1) other)
  | .loop s body => ⟨.loop s body, nesting⟩ :: visitsOf (nesting + 1) body
  | b => [⟨b, nesting⟩]
termination_by structural b => b

/-- The blocks of a sequence in the order in which they are written. -/
def visitsOf (nesting : Nat) : List Block → List Visit
  | [] => []
  | b :: rest => b.visits nesting ++ visitsOf nesting rest
termination_by structural bs => bs

/-- The blocks of arms in the order in which they are written. -/
def visitsOfArms (nesting : Nat) : List (String × List Block) → List Visit
  | [] => []
  | (_, body) :: rest => visitsOf nesting body ++ visitsOfArms nesting rest
termination_by structural arms => arms

end

/-- What follows a join, and the joins whose continuations were being built when it was reached,
the join itself last. -/
structure Continuation where
  join : String
  within : List String
  body : List Block
  deriving Inhabited

/-- The flow of a handler: what follows the trigger, the continuations in the order in which their
joins are reached, and all blocks in the order in which they are written. -/
structure Flow where
  main : List Block
  continuations : List Continuation
  written : List Block
  deriving Inhabited

/-- Why no handler can be generated. -/
inductive GenerateError where
  | noEntry
  | unsupportedTrigger (kind : String)
  | tooDeep
  /-- A configuration that cannot be read. -/
  | fault (f : Fault)
  deriving Repr, DecidableEq, Inhabited

/-- How many arms may be nested. -/
def maxNesting : Nat := 240

def joinIds (p : Plan) : List String :=
  (p.steps.filter fun s => Structure.ofKind? s.kind = some .join).map (·.id)

/-- The continuation of a join that is reached within others. -/
def continuationOf (p : Plan) (within : List String) (join : String) : Continuation :=
  let within := within ++ [join]
  { join, within, body := walk p within (p.nextTarget join) }

/-- A visit still to be made, and the continuations that it is part of. -/
structure Pending where
  within : List String
  visit : Visit
  deriving Inhabited

/-- Makes the pending visits and gives the continuations and the blocks that are met. A join that
is reached for the first time has its continuation visited next; `reached` holds the joins reached
so far. -/
def build (p : Plan) (reached : List String) (pending : List Pending) :
    Except GenerateError (List Continuation × List Block) :=
  match pending with
  | [] => .ok ([], [])
  | ⟨within, ⟨block, nesting⟩⟩ :: rest =>
    if nesting > maxNesting then .error .tooDeep
    else
      match block with
      | .unreadable _ f => .error (.fault f)
      | .join s =>
        if _h : s.id ∈ joinIds p ∧ s.id ∉ reached then do
          let c := continuationOf p within s.id
          let inner := (visitsOf (nesting + 1) c.body).map (⟨c.within, ·⟩)
          let (continuations, written) ← build p (s.id :: reached) (inner ++ rest)
          return (c :: continuations, block :: written)
        else do
          let (continuations, written) ← build p reached rest
          return (continuations, block :: written)
      | block => do
        let (continuations, written) ← build p reached rest
        return (continuations, block :: written)
termination_by ((Graph.unseen (joinIds p) reached).length, pending.length)
decreasing_by
  · exact Prod.Lex.left _ _ (Graph.length_unseen_cons_lt _h.1 _h.2)
  · exact Prod.Lex.right _ (by simp)
  · exact Prod.Lex.right _ (by simp)

/-- The first successor of the entry that exists and is no trigger. -/
def firstStep? (p : Plan) : Option String :=
  ((p.outgoing p.entry).find? fun e =>
    ((p.step? e.target).map fun s => !s.isTrigger).getD false).map (·.target)

def flowOf (p : Plan) : Except GenerateError Flow := do
  let main := walk p [p.entry] (firstStep? p)
  let (continuations, written) ← build p [] ((visitsOf 0 main).map (⟨[], ·⟩))
  return { main, continuations, written }

end Workflow.Handler
