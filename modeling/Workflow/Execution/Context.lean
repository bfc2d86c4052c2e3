/-
The context of a run: its variables and the results of its steps, and what
formulas and configurations mean in it.

A configuration holds formulas between double braces. A text that is one
formula stands for its value; in any other text each formula is replaced by
the text of its value, once and from left to right.
-/
import Workflow.Execution.Request
import Workflow.Formula.Marker
import Workflow.Json.Write
import Workflow.Text.Search

namespace Workflow

structure Context where
  workflowId : String
  executionId : String
  bindings : Names := []
  results : Names := []
  currentStep : Option String := none
  lastStep : Option String := none
  deriving Inhabited

def Names.dict (names : Names) : Value := Value.ofFields names

namespace Context

/-- The names that formulas see: the variables, and the results of steps by node under one name. -/
def names (c : Context) : Names := putEntry "results" c.results.dict c.bindings

def bind (c : Context) (name : String) (v : Value) : Context :=
  { c with bindings := putEntry name v c.bindings }

def unbind (c : Context) (name : String) : Context :=
  { c with bindings := c.bindings.filter (·.1 ≠ name) }

def setResult (c : Context) (node : String) (v : Value) : Context :=
  { c with results := putEntry node v c.results, lastStep := some node }

/-- The result of the run: the variable `result` when it is bound, else that of the last step. -/
def result (c : Context) : Value :=
  match c.bindings.lookup "result" with
  | some v => v
  | none =>
    match c.lastStep with
    | some node => (c.results.lookup node).getD .none
    | none => .none

def evaluate (c : Context) (e : Value) : Attempt Value :=
  match Formula.evaluate c.names e with
  | .ok v => .ok v
  | .error f => .error (.ofFormula f)

end Context

/-- The text that a value is replaced by inside other text. -/
def insertedText : Value → Attempt String
  | .none => .ok ""
  | v@(.dict _) => (Json.write v).attempt
  | v@(.list _) => (Json.write v).attempt
  | v => v.shown.attempt

/-- A text cut at its formulas. -/
inductive Fragment where
  | plain (cs : List Char)
  | formula (cs : List Char)
  deriving Repr, DecidableEq, Inhabited

/-- The characters before the first pair of closing braces, and those after it. -/
def cutAtClose (done : List Char) : List Char → Option (List Char × List Char)
  | '\x7d' :: '\x7d' :: rest => some (done.reverse, rest)
  | c :: rest => cutAtClose (c :: done) rest
  | [] => none

/-- The formula after a pair of opening braces: at least one character, up to the next pair of
closing ones. -/
def cutFormula : List Char → Option (List Char × List Char)
  | c :: rest => cutAtClose [c] rest
  | [] => none

theorem cutAtClose_length {done cs a rest : List Char} (h : cutAtClose done cs = some (a, rest)) :
    rest.length < cs.length := by
  fun_induction cutAtClose done cs with
  | case1 =>
    simp only [Option.some.injEq, Prod.mk.injEq] at h
    simp only [← h.2, List.length_cons]
    omega
  | case2 _ _ _ _ ih =>
    have := ih h
    simp only [List.length_cons]
    omega
  | case3 => simp at h

theorem cutFormula_length {cs a rest : List Char} (h : cutFormula cs = some (a, rest)) :
    rest.length < cs.length := by
  cases cs with
  | nil => simp [cutFormula] at h
  | cons c cs =>
    have := cutAtClose_length h
    simp only [List.length_cons]
    omega

/-- Cuts a text at its formulas; `plain` holds the characters since the last one, reversed. -/
def fragments (plain : List Char) (cs : List Char) : List Fragment :=
  match cs with
  | [] => if plain.isEmpty then [] else [.plain plain.reverse]
  | '\x7b' :: '\x7b' :: rest =>
    match _h : cutFormula rest with
    | some (body, after) =>
      (if plain.isEmpty then [] else [.plain plain.reverse]) ++ .formula body :: fragments [] after
    | none => fragments ('\x7b' :: plain) ('\x7b' :: rest)
  | c :: rest => fragments (c :: plain) rest
termination_by cs.length
decreasing_by
  · have := cutFormula_length _h
    simp only [List.length_cons]
    omega
  · simp
  · simp

/-- The formula that a text consists of, if it is a single one between blanks. -/
def wholeFormula? (s : String) : Option String :=
  let cs := (Text.trim s).toList
  let body := (cs.drop 2).dropLast.dropLast
  if "\x7b\x7b".toList.isPrefixOf cs ∧ "\x7d\x7d".toList.isSuffixOf (cs.drop 2) ∧ !body.isEmpty ∧
      !Text.contains "\x7b\x7b".toList body then
    some (String.ofList body)
  else none

/-- The texts of fragments, each formula replaced by the text of its value. -/
def fragmentTexts (c : Context) : List Fragment → Attempt (List String)
  | [] => .ok []
  | .plain cs :: rest => do return String.ofList cs :: (← fragmentTexts c rest)
  | .formula cs :: rest => do
    let v ← c.evaluate (.str (String.ofList cs))
    let text ← insertedText v
    return text :: (← fragmentTexts c rest)

/-- The value of a text with formulas in it. -/
def interpolateText (c : Context) (s : String) : Attempt Value :=
  if hasMarker s then
    match wholeFormula? s with
    | some body => c.evaluate (.str body)
    | none => do return .str (String.join (← fragmentTexts c (fragments [] s.toList)))
  else .ok (.str s)

mutual

/-- The value of a configuration: every text in its dictionaries and lists is interpolated. -/
def interpolateAll (c : Context) : Value → Attempt Value
  | .dict entries => do return .dict (← interpolateEntries c entries)
  | .list items => do return .list (← interpolateItems c items)
  | .str s => interpolateText c s
  | v => .ok v
termination_by structural v => v

def interpolateItems (c : Context) : List Value → Attempt (List Value)
  | [] => .ok []
  | v :: rest => do
    let v ← interpolateAll c v
    return v :: (← interpolateItems c rest)
termination_by structural vs => vs

def interpolateEntries (c : Context) : List (Value × Value) → Attempt (List (Value × Value))
  | [] => .ok []
  | (k, v) :: rest => do
    let v ← interpolateAll c v
    return (k, v) :: (← interpolateEntries c rest)
termination_by structural entries => entries

end

end Workflow
