/-
Reading a list of tokens: a reading takes some tokens off the front, or fails
at a place. Of two failures the one that got further counts.
-/
import Workflow.Source.Token

namespace Workflow.Source

/-- A failure: its cause, the tokens left where it arose, and whether no other reading of the text
may be tried. -/
structure Failure where
  cause : SourceError
  left : List Token
  final : Bool
  deriving Inhabited

/-- A reading of tokens. -/
abbrev Parse := StateT (List Token) (Except Failure)

namespace Parse

/-- The cause of a failure at the first of the tokens: a change of depth has no place there, or the
text could not be cut into tokens. -/
def causeAt : List Token → SourceError
  | .bad cause :: _ => cause
  | .indent :: _ => .indentation
  | .dedent :: _ => .indentation
  | _ => .malformed

/-- Fails at the next token. -/
def fail {α : Type} : Parse α := fun ts => .error ⟨causeAt ts, ts, false⟩

/-- Fails for good. -/
def refuse {α : Type} (cause : SourceError) : Parse α := fun ts => .error ⟨cause, ts, true⟩

def peek : Parse Token := fun ts => .ok (ts.headD .finish, ts)

def skip : Parse Unit := fun ts => .ok ((), ts.tail)

def atSign (s : String) : Parse Bool := fun ts =>
  match ts with
  | .sign t :: _ => .ok (t = s, ts)
  | _ => .ok (false, ts)

def atKeyword (w : String) : Parse Bool := fun ts =>
  match ts with
  | .keyword t :: _ => .ok (t = w, ts)
  | _ => .ok (false, ts)

def atSigns (signs : List String) : Parse Bool := fun ts =>
  match ts with
  | .sign t :: _ => .ok (signs.contains t, ts)
  | _ => .ok (false, ts)

/-- Takes a sign if it comes next. -/
def acceptSign (s : String) : Parse Bool := fun ts =>
  match ts with
  | .sign t :: rest => if t = s then .ok (true, rest) else .ok (false, ts)
  | _ => .ok (false, ts)

/-- Takes a reserved word if it comes next. -/
def acceptKeyword (w : String) : Parse Bool := fun ts =>
  match ts with
  | .keyword t :: rest => if t = w then .ok (true, rest) else .ok (false, ts)
  | _ => .ok (false, ts)

def sign (s : String) : Parse Unit := do
  unless ← acceptSign s do fail

def keyword (w : String) : Parse Unit := do
  unless ← acceptKeyword w do fail

def name : Parse String := fun ts =>
  match ts with
  | .name id :: rest => .ok (id, rest)
  | _ => fail ts

def newline : Parse Unit := fun ts =>
  match ts with
  | .newline :: rest => .ok ((), rest)
  | _ => fail ts

/-- One reading or, where it fails, another. -/
def orElse {α : Type} (first second : Parse α) : Parse α := fun ts =>
  match first ts with
  | .ok result => .ok result
  | .error e =>
    if e.final then .error e
    else
      match second ts with
      | .ok result => .ok result
      | .error e' =>
        if e'.final ∨ e'.left.length ≤ e.left.length then .error e' else .error e

/-- Repeats a step until it says that it is done; `fuel` bounds the number of steps. -/
def loop {α : Type} (fuel : Nat) (step : α → Parse (α × Bool)) (start : α) : Parse α :=
  match fuel with
  | 0 => refuse .malformed
  | fuel + 1 => do
    let (next, more) ← step start
    if more then loop fuel step next else return next

/-- Items set apart by commas, at least one; whether a comma follows the last. After a comma the
next item is read unless `stops` says that none follows. -/
def commaList {α : Type} (fuel : Nat) (item : Parse α) (stops : Parse Bool) :
    Parse (List α × Bool) := do
  let first ← item
  let (items, trailing) ← loop fuel
    (fun ((items, trailing) : List α × Bool) => do
      if ← acceptSign "," then
        if ← stops then return ((items, true), false)
        let next ← item
        return ((next :: items, false), true)
      else return ((items, trailing), false))
    ([first], false)
  return (items.reverse, trailing)

end Parse

end Workflow.Source
