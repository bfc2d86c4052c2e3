/-
Checks: what form a value should have, and the reading of it.

A check of a record looks at all its fields, so that a report lists every
problem, in the order of the fields.
-/
import Workflow.Schema.Integer
import Workflow.Text.Case
import Workflow.Text.Utf8
import Workflow.Value.Compare

namespace Workflow

/-- What a check gives: the value read, or the problems found. -/
inductive Checked (α : Type) where
  | ok (a : α)
  | bad (problems : List Problem)

namespace Checked

def map {α β : Type} (f : α → β) : Checked α → Checked β
  | ok a => ok (f a)
  | bad ps => bad ps

/-- Reads one value after another; the problems of both are kept. -/
def both {α β : Type} (a : Checked α) (b : Checked β) : Checked (α × β) :=
  match a, b with
  | ok a, ok b => ok (a, b)
  | ok _, bad qs => bad qs
  | bad ps, ok _ => bad ps
  | bad ps, bad qs => bad (ps ++ qs)

/-- Reads all values; the problems of all are kept. -/
def all {α : Type} : List (Checked α) → Checked (List α)
  | [] => ok []
  | a :: rest => (both a (all rest)).map fun (x, xs) => x :: xs

/-- Says that a value is a part of another. -/
def under {α : Type} (step : PathStep) : Checked α → Checked α
  | ok a => ok a
  | bad ps => bad (ps.map fun p => { p with path := step :: p.path })

/-- A problem with a value itself. -/
def defect {α : Type} (d : Defect) (v : Value) : Checked α := bad [⟨[], d, v⟩]

/-- The result as an error with all problems. -/
def toExcept {α : Type} : Checked α → Except (List Problem) α
  | ok a => .ok a
  | bad ps => .error ps

instance : Functor Checked where
  map := Checked.map

instance : Seq Checked where
  seq f a := (both f (a ())).map fun (g, x) => g x

end Checked

/-- A check of a value. -/
abbrev Check (α : Type) := Value → Checked α

/-- The entries of a record that is checked. -/
abbrev Entries := List (Value × Value)

namespace Check

def anything : Check Value := .ok

/-- A text with at least the given number of characters. Bytes are read as UTF-8. -/
def text (least : Nat) : Check String := fun v =>
  let sized (s : String) : Checked String :=
    if s.length < least then .defect (.tooShort least) v else .ok s
  match v with
  | .str s => sized s
  | .bytes data =>
    match Text.decodeUtf8 data with
    | .ok s => sized s
    | .error _ => .defect .undecodable v
  | _ => .defect .noText v

/-- A text without blanks at its ends, refused with the given reason when nothing is left. -/
def trimmed (reason : String) : Check String := fun v =>
  match text 0 v with
  | .ok s => if (Text.trim s).isEmpty then .defect (.refused reason) v else .ok (Text.trim s)
  | .bad ps => .bad ps

/-- The texts that mean yes, and those that mean no. -/
def flagOfText (s : String) : Option Bool :=
  let s := s.toLower
  if s ∈ ["1", "t", "y", "on", "yes", "true"] then some true
  else if s ∈ ["0", "f", "n", "no", "off", "false"] then some false
  else none

/-- The flag that a number is; one that does not fit into a word is none. -/
def flagOfInt (v : Value) (n : Int) : Checked Bool :=
  if n = 0 then .ok false
  else if n = 1 then .ok true
  else if -(Number.twoTo 63 : Int) ≤ n ∧ n < Number.twoTo 63 then .defect .unreadableFlag v
  else .defect .noFlag v

def flag : Check Bool := fun v =>
  let named (s : String) : Checked Bool :=
    match flagOfText s with
    | some b => .ok b
    | none => .defect .unreadableFlag v
  match v with
  | .bool b => .ok b
  | .int n => flagOfInt v n
  | .float x =>
    match Schema.integerOfFloat x with
    | .ok n => flagOfInt v n
    | .error _ => .defect .noFlag v
  | .str s => named s
  | .bytes data =>
    match Text.decodeUtf8 data with
    | .ok s => named s
    | .error _ => .defect .unreadableFlag v
  | _ => .defect .noFlag v

/-- An integer that is not below the given one. -/
def integer (least : Int) : Check Int := fun v =>
  let sized (n : Int) : Checked Int := if n < least then .defect (.tooSmall least) v else .ok n
  let read (r : Except Defect Int) : Checked Int :=
    match r with
    | .ok n => sized n
    | .error d => .defect d v
  match v with
  | .int n => sized n
  | .bool b => sized (if b then 1 else 0)
  | .float x => read (Schema.integerOfFloat x)
  | .str s => read (Schema.integerOfText s)
  | .bytes data =>
    match Text.decodeUtf8 data with
    | .ok s => read (Schema.integerOfText s)
    | .error _ => .defect .unreadableInteger v
  | _ => .defect .noInteger v

/-- One of the options, each with what it stands for; `closed` when they are a type of their own. -/
def choice {α : Type} (closed : Bool) (options : List (String × α)) : Check α := fun v =>
  let chosen := match v with
    | .str s => options.lookup s
    | _ => none
  match chosen with
  | some a => .ok a
  | none => .defect (.noOption closed (options.map (·.1))) v

def oneOf (options : List String) : Check String := choice false (options.map fun s => (s, s))

/-- Nothing, or a value of another form. -/
def optional {α : Type} (check : Check α) : Check (Option α) := fun v =>
  match v with
  | .none => .ok none
  | v => (check v).map some

/-- The results for items in order, each under its place. -/
def items {α : Type} (check : Check α) (place : Nat) : List Value → List (Checked α)
  | [] => []
  | v :: rest => (check v).under (.item place) :: items check (place + 1) rest

def listOf {α : Type} (check : Check α) : Check (List α) := fun v =>
  match v with
  | .list vs | .tuple vs | .set vs => .all (items check 0 vs)
  | v => .defect .noList v

/-- A dictionary with text keys. -/
def names : Check Names := fun v =>
  match v with
  | .dict entries =>
    .ok (entries.filterMap fun
      | (.str k, x) => some (k, x)
      | _ => none)
  | v => .defect .noDict v

/-- The entry of a record under its key, or else under its other name, and which of them it is. -/
def entry? (key name : String) (entries : Entries) : Option (String × Value) :=
  match Value.field? key entries with
  | some v => some (key, v)
  | none => (Value.field? name entries).map fun v => (name, v)

/-- A field that a record must have. -/
def required {α : Type} (key name : String) (check : Check α) (entries : Entries) : Checked α :=
  match entry? key name entries with
  | some (found, v) => (check v).under (.field found)
  | none => .bad [⟨[.field key], .missing, .dict entries⟩]

/-- A field with a default. -/
def defaulted {α : Type} (key name : String) (default : α) (check : Check α) (entries : Entries) :
    Checked α :=
  match entry? key name entries with
  | some (found, v) => (check v).under (.field found)
  | none => .ok default

/-- A record of the given name. -/
def record {α : Type} (name : String) (fields : Entries → Checked α) : Check α := fun v =>
  match v with
  | .dict entries => fields entries
  | v => .defect (.noRecord name) v

/-- A field of an open record: its name, and the check of it. -/
abbrev Property := String × (Entries → Checked Value)

/-- A field that an open record must have. -/
def need (name : String) (check : Check Value) : Property := (name, required name name check)

/-- A field of an open record with a default. -/
def may (name : String) (default : Value) (check : Check Value) : Property :=
  (name, defaulted name name default check)

/-- The step to an entry whose key is no text. -/
def keyStep : Value → PathStep
  | .bool b => .field (if b then "1" else "0")
  | .int n => .field (Number.intText n)
  | k => .field k.literal

/-- The keys of an open record that are no texts. -/
def keyProblems (entries : Entries) : List Problem :=
  entries.filterMap fun (k, _) =>
    match k with
    | .str _ => none
    | k => some ⟨[keyStep k], .noTextKey, k⟩

/-- The entries of an open record besides its fields. -/
def others (properties : List Property) (entries : Entries) : Entries :=
  entries.filter fun (k, _) =>
    match k with
    | .str s => properties.all (·.1 ≠ s)
    | _ => false

/-- A record that may have more entries than its fields. It is read as its fields, followed by
the other entries. -/
def openRecord (name : String) (properties : List Property) : Check Value :=
  record name fun entries =>
    let fields := Checked.all (properties.map fun (key, read) =>
      (read entries).map fun v => (Value.str key, v))
    let keys : Checked Unit := match keyProblems entries with
      | [] => .ok ()
      | ps => .bad ps
    (fields.both keys).map fun (known, _) => .dict (known ++ others properties entries)

def textValue (least : Nat) : Check Value := fun v => (text least v).map .str

def integerValue (least : Int) : Check Value := fun v => (integer least v).map .int

def flagValue : Check Value := fun v => (flag v).map .bool

def oneOfValue (options : List String) : Check Value := fun v => (oneOf options v).map .str

def optionalValue (check : Check Value) : Check Value := fun v =>
  (optional check v).map fun o => o.getD .none

def listValue (check : Check Value) : Check Value := fun v => (listOf check v).map .list

end Check

end Workflow
