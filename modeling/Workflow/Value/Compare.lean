/-
Equality and order of values, and the sets and dictionaries built on them.

Numbers of different types are compared exactly. Inside containers a
not-a-number counts as the same as itself, though it is not equal to itself.
Only values that cannot change can be members of sets and keys of dictionaries.
-/
import Workflow.Value.Fault
import Workflow.Value.Text

namespace Workflow

/-- The four orderings that an expression can ask for. -/
inductive OrderOp where
  | lt
  | le
  | gt
  | ge
  deriving Repr, DecidableEq, Inhabited

namespace OrderOp

/-- The sign of an ordering, as messages give it. -/
def sign : OrderOp → String
  | lt => "<"
  | le => "<="
  | gt => ">"
  | ge => ">="

/-- Whether an ordering holds between two things that compare as `o`. -/
def holds : OrderOp → Ordering → Bool
  | lt, o => o == .lt
  | le, o => o != .gt
  | gt, o => o == .gt
  | ge, o => o != .lt

end OrderOp

/-- A number without the distinction between truth values and integers. -/
inductive Numeric where
  | int (n : Int)
  | float (x : Float)
  | complex (re im : Float)
  deriving Inhabited

namespace Numeric

/-- How two real numbers compare, exactly; nothing when one is not a number. -/
def order? : Numeric → Numeric → Option Ordering
  | .int a, .int b => some (compare a b)
  | .float x, .float y =>
    if x < y then some .lt else if x > y then some .gt else if x == y then some .eq else none
  | .int a, .float y => intFloat a y
  | .float x, .int b => (intFloat b x).map Ordering.swap
  | _, _ => none
where
  /-- How an integer compares with a double. -/
  intFloat (a : Int) (y : Float) : Option Ordering :=
    match Number.parts y with
    | .nan => none
    | .infinite negative => some (if negative then .gt else .lt)
    | .finite negative m e => some (Number.compareInt a negative m e)

def equal : Numeric → Numeric → Bool
  | .complex a b, .complex c d => a == c && b == d
  | .complex a b, real => b == 0.0 && order? (.float a) real == some .eq
  | real, .complex c d => d == 0.0 && order? real (.float c) == some .eq
  | a, b => order? a b == some .eq

end Numeric

namespace Value

/-- The number that a value is, if it is one. -/
def numeric? : Value → Option Numeric
  | .bool b => some (.int (if b then 1 else 0))
  | .int n => some (.int n)
  | .float x => some (.float x)
  | .complex re im => some (.complex re im)
  | _ => Option.none

/-- Equality of two values that are no containers. -/
def atomEqual (a b : Value) : Bool :=
  match numeric? a, numeric? b with
  | some x, some y => x.equal y
  | _, _ =>
    match a, b with
    | .none, .none => true
    | .ellipsis, .ellipsis => true
    | .str s, .str t => s == t
    | .bytes s, .bytes t => s == t
    | .object s, .object t => s == t
    | _, _ => false

/-- Whether both values are the double that is not a number. -/
def bothNan : Value → Value → Bool
  | .float x, .float y => x.isNaN && y.isNaN
  | _, _ => false

mutual

def equal : Value → Value → Bool
  | .list a, .list b => equalLists a b
  | .tuple a, .tuple b => equalLists a b
  | .set a, .set b => a.length == b.length && membersIn a b
  | .set a, .view .keys b => a.length == b.length && membersIn a (b.map (·.1))
  | .view .keys a, .set b => a.length == b.length && keysIn a b
  | .view .keys a, .view .keys b => a.length == b.length && keysIn a (b.map (·.1))
  | .view .items a, .view .items b => a.length == b.length && entriesIn a b
  | .set a, .view .items b => a.length == b.length && membersIn a (b.map fun e => .tuple [e.1, e.2])
  | .view .items a, .set b => a.length == b.length && pairsIn a b
  | .view .keys a, .view .items b =>
    a.length == b.length && keysIn a (b.map fun e => .tuple [e.1, e.2])
  | .view .items a, .view .keys b => a.length == b.length && pairsIn a (b.map (·.1))
  | .dict a, .dict b => a.length == b.length && entriesIn a b
  | .slice a b c, .slice d e f => equal a d && equal b e && equal c f
  | a, b => atomEqual a b
termination_by structural x => x

/-- Equality of two sequences, member by member. -/
def equalLists : List Value → List Value → Bool
  | [], [] => true
  | a :: as, b :: bs => (equal a b || bothNan a b) && equalLists as bs
  | _, _ => false
termination_by structural x => x

/-- Whether every value of the first list is in the second. -/
def membersIn : List Value → List Value → Bool
  | [], _ => true
  | a :: as, bs => bs.any (fun b => equal a b || bothNan a b) && membersIn as bs
termination_by structural x => x

def keysIn : List (Value × Value) → List Value → Bool
  | [], _ => true
  | (k, _) :: rest, bs => bs.any (fun b => equal k b || bothNan k b) && keysIn rest bs
termination_by structural x => x

def pairsIn : List (Value × Value) → List Value → Bool
  | [], _ => true
  | (k, v) :: rest, bs =>
    bs.any (fun
      | .tuple [x, y] => (equal k x || bothNan k x) && (equal v y || bothNan v y)
      | _ => false) && pairsIn rest bs
termination_by structural x => x

def entriesIn : List (Value × Value) → List (Value × Value) → Bool
  | [], _ => true
  | (k, v) :: rest, bs =>
    bs.any (fun b => (equal k b.1 || bothNan k b.1) && (equal v b.2 || bothNan v b.2)) &&
      entriesIn rest bs
termination_by structural x => x

end

/-- Whether a container that holds `b` counts `a` as its member. -/
def same (a b : Value) : Bool := equal a b || bothNan a b

mutual

/-- The type that keeps a value from being a key, if any. -/
def unhashable? : Value → Option String
  | .list _ => some "list"
  | .set _ => some "set"
  | .dict _ => some "dict"
  | .slice .. => some "slice"
  | .view .keys _ => some "dict_keys"
  | .view .items _ => some "dict_items"
  | .tuple items => unhashableIn? items
  | _ => Option.none

/-- The type that keeps a tuple from being a key: that of its first member which cannot be one. -/
def unhashableIn? : List Value → Option String
  | [] => Option.none
  | v :: rest =>
    match unhashable? v with
    | some t => some t
    | Option.none => unhashableIn? rest

end

/-- Refuses a value that cannot be a key. -/
def requireKey (v : Value) : Outcome Unit :=
  match unhashable? v with
  | some t => throw (.unhashable t)
  | Option.none => pure ()

def lookup (key : Value) (entries : List (Value × Value)) : Option Value :=
  (entries.find? fun e => same key e.1).map (·.2)

/-- Puts a value at a key: in place when the key is there, at the end otherwise. -/
def insertEntry (key value : Value) : List (Value × Value) → List (Value × Value)
  | [] => [(key, value)]
  | (k, v) :: rest =>
    if same key k then (k, value) :: rest else (k, v) :: insertEntry key value rest

/-- A dictionary of the given entries; of two with one key the later value stays at the earlier
place. -/
def dictOf (entries : List (Value × Value)) : Value :=
  .dict (entries.foldl (fun acc (k, v) => insertEntry k v acc) [])

/-- The values without repetitions, each at its first place. -/
def distinct (items : List Value) : List Value :=
  items.foldl (fun acc v => if acc.any (same v) then acc else acc ++ [v]) []

/-- The set of the given values. -/
def setOf (items : List Value) : Value := .set (setOrder (distinct items))

/-- How two texts compare: by code points. -/
def compareTexts (a b : String) : Ordering :=
  if a < b then .lt else if a == b then .eq else .gt

def compareBytes : List UInt8 → List UInt8 → Ordering
  | [], [] => .eq
  | [], _ => .lt
  | _, [] => .gt
  | a :: as, b :: bs => if a < b then .lt else if b < a then .gt else compareBytes as bs

/-- The members of a set-like value. -/
def setMembers? : Value → Option (List Value)
  | .set items => some items
  | .view .keys entries => some (entries.map (·.1))
  | .view .items entries => some (entries.map fun e => .tuple [e.1, e.2])
  | _ => Option.none

/-- Inclusion of sets, as an ordering. -/
def orderSets (op : OrderOp) (a b : List Value) : Bool :=
  let within (xs ys : List Value) := xs.all fun x => ys.any (same x)
  match op with
  | .lt => a.length < b.length && within a b
  | .le => a.length ≤ b.length && within a b
  | .gt => b.length < a.length && within b a
  | .ge => b.length ≤ a.length && within b a

/-- Order of two values that are no sequences. -/
def orderAtoms (op : OrderOp) (a b : Value) : Outcome Bool :=
  match numeric? a, numeric? b with
  | some (.complex ..), _ | _, some (.complex ..) =>
    throw (.notOrdered op.sign a.typeName b.typeName)
  | some x, some y =>
    pure <| match x.order? y with
      | some o => op.holds o
      | Option.none => false
  | _, _ =>
    match a, b with
    | .str s, .str t => pure (op.holds (compareTexts s t))
    | .bytes s, .bytes t => pure (op.holds (compareBytes s t))
    | _, _ =>
      match setMembers? a, setMembers? b with
      | some s, some t => pure (orderSets op s t)
      | _, _ => throw (.notOrdered op.sign a.typeName b.typeName)

mutual

/-- Whether the ordering holds between two values: sequences compare at their first difference. -/
def order (op : OrderOp) : Value → Value → Outcome Bool
  | .list a, .list b => orderLists op a b
  | .tuple a, .tuple b => orderLists op a b
  | a, b => orderAtoms op a b
termination_by structural x => x

def orderLists (op : OrderOp) : List Value → List Value → Outcome Bool
  | a :: as, b :: bs => if same a b then orderLists op as bs else order op a b
  | as, bs => pure (op.holds (compare as.length bs.length))
termination_by structural x => x

end

/-- The length of the leading run that is not decreasing (or strictly decreasing, which the flag
says), found by asking whether each member is less than the one before it. -/
def leadingRun (previous : Value) (down : Bool) : List Value → Outcome Nat
  | [] => pure 0
  | v :: rest => do
    let less ← order .lt v previous
    if less == down then return 1 + (← leadingRun v down rest) else return 0

/-- The place after the members that are not greater than `v`, by bisection between `lo` and
`hi`. -/
def insertionPoint (v : Value) (items : Array Value) (lo hi : Nat) : Outcome Nat :=
  if lo < hi then do
    let mid := (lo + hi) / 2
    match items[mid]? with
    | Option.none => pure lo
    | some w =>
      if ← order .lt v w then insertionPoint v items lo mid else insertionPoint v items (mid + 1) hi
  else pure lo
termination_by hi - lo

/-- Inserts values one by one into an ordered array. -/
def insertAll (items : Array Value) : List Value → Outcome (Array Value)
  | [] => pure items
  | v :: rest => do
    let place ← insertionPoint v items 0 items.size
    insertAll (items.insertIdxIfInBounds place v) rest

/-- The values in increasing order, equal ones in their given order: the leading run is taken as it
is (turned round when it decreases) and the others are inserted. -/
def sorted (items : List Value) : Outcome (List Value) :=
  match items with
  | [] => pure []
  | [v] => pure [v]
  | v :: w :: rest => do
    let down ← order .lt w v
    let more ← leadingRun w down rest
    let run := items.take (more + 2)
    let start := if down then run.reverse else run
    return (← insertAll start.toArray (items.drop (more + 2))).toList

end Value

end Workflow
