/-
Values as containers: their length, the members they yield, membership, and
picking members by position or by slice.
-/
import Workflow.Value.Compare

namespace Workflow.Value

def length : Value → Outcome Nat
  | .str s => pure s.length
  | .bytes data => pure data.length
  | .list items => pure items.length
  | .tuple items => pure items.length
  | .set items => pure items.length
  | .dict entries => pure entries.length
  | .view _ entries => pure entries.length
  | v => throw (.noLength v.typeName)

/-- The members that a view yields. -/
def viewItems : ViewKind → List (Value × Value) → List Value
  | .keys, entries => entries.map (·.1)
  | .values, entries => entries.map (·.2)
  | .items, entries => entries.map fun e => .tuple [e.1, e.2]

/-- The characters of a text, each as a text. -/
def charItems (s : String) : List Value :=
  s.toList.map fun c => .str (String.singleton c)

/-- The members that a value yields one after the other; nothing when it yields none. -/
def items? : Value → Option (List Value)
  | .str s => some (charItems s)
  | .bytes data => some (data.map fun b => .int b.toNat)
  | .list items => some items
  | .tuple items => some items
  | .set items => some items
  | .dict entries => some (entries.map (·.1))
  | .view kind entries => some (viewItems kind entries)
  | _ => Option.none

/-- The members that a value yields one after the other. -/
def iterate (v : Value) : Outcome (List Value) :=
  match items? v with
  | some items => pure items
  | Option.none => throw (.notIterable v.typeName)

/-- Whether one list occurs in another as a run. -/
def hasRun [BEq α] (needle : List α) : List α → Bool
  | [] => needle.isEmpty
  | a :: rest => needle.isPrefixOf (a :: rest) || hasRun needle rest

/-- Whether a container has an item. -/
def contains (container item : Value) : Outcome Bool :=
  match container with
  | .str s =>
    match item with
    | .str t => pure (hasRun t.toList s.toList)
    | v => throw (.textMembership v.typeName)
  | .bytes data =>
    match item with
    | .bytes part => pure (hasRun part data)
    | .bool b => pure (data.contains (if b then 1 else 0))
    | .int n =>
      if 0 ≤ n ∧ n < 256 then pure (data.contains n.toNat.toUInt8) else throw .byteOutOfRange
    | v => throw (.bytesRequired v.typeName)
  | .list items => pure (items.any (same item))
  | .tuple items => pure (items.any (same item))
  | .set items =>
    match item with
    | .set _ => pure false
    | _ => do requireKey item; pure (items.any (same item))
  | .dict entries => do requireKey item; pure (entries.any fun e => same item e.1)
  | .view .keys entries => do requireKey item; pure (entries.any fun e => same item e.1)
  | .view .values entries => pure (entries.any fun e => same item e.2)
  | .view .items entries =>
    match item with
    | .tuple [k, v] => do requireKey k; pure (entries.any fun e => same k e.1 && same v e.2)
    | _ => pure false
  | v => throw (.notAContainer v.typeName)

/-- The position that a value stands for, if it can be one. -/
def position? : Value → Option Int
  | .int n => some n
  | .bool b => some (if b then 1 else 0)
  | _ => Option.none

/-- A bound of a slice: absent, or a position. -/
def sliceBound : Value → Outcome (Option Int)
  | .none => pure Option.none
  | v =>
    match position? v with
    | some n => pure (some n)
    | Option.none => throw .badSliceIndex

/-- A bound counted from the start and brought into the range `low … high`. -/
def clampBound (length : Nat) (low high : Int) (bound : Int) : Int :=
  let n := if bound < 0 then bound + length else bound
  if n < low then low else if high < n then high else n

/-- The positions that a slice picks from a sequence. -/
def slicePositions (length : Nat) (start stop step : Option Int) : Outcome (List Nat) :=
  let step := step.getD 1
  if step = 0 then throw .zeroSliceStep
  else if 0 < step then
    let first := (start.map (clampBound length 0 length)).getD 0
    let last := (stop.map (clampBound length 0 length)).getD length
    let count := if first < last then ((last - first - 1) / step + 1).toNat else 0
    pure ((List.range count).map fun (i : Nat) => (first + (i : Int) * step).toNat)
  else
    let first := (start.map (clampBound length (-1) (length - 1))).getD (length - 1)
    let last := (stop.map (clampBound length (-1) (length - 1))).getD (-1)
    let count := if last < first then ((first - last - 1) / (-step) + 1).toNat else 0
    pure ((List.range count).map fun (i : Nat) => (first + (i : Int) * step).toNat)

def pickSlice (items : List α) (start stop step : Value) : Outcome (List α) := do
  let stride ← sliceBound step
  if stride == some 0 then throw .zeroSliceStep
  let first ← sliceBound start
  let last ← sliceBound stop
  let positions ← slicePositions items.length first last stride
  let array := items.toArray
  return positions.filterMap (array[·]?)

/-- The member at a position, counted from the end when negative. -/
def pickItem? (items : List α) (n : Int) : Option α :=
  if n < 0 then
    if (items.length : Int) + n < 0 then Option.none else items[((items.length : Int) + n).toNat]?
  else items[n.toNat]?

def pickItem (sequence : String) (items : List α) (n : Int) : Outcome α :=
  match pickItem? items n with
  | some a => pure a
  | Option.none => throw (.indexOutOfRange sequence)

/-- Picks from a sequence by position or slice; `name` is the sequence's name in messages. -/
def pick (name : String) (items : List α) (one : α → Value) (many : List α → Value)
    (bad : Value → Fault) (index : Value) : Outcome Value :=
  match index with
  | .slice start stop step => do return many (← pickSlice items start stop step)
  | v =>
    match position? v with
    | some n => do return one (← pickItem name items n)
    | Option.none => throw (bad v)

/-- The member of a value at an index: by position or slice in a sequence, by key in a
dictionary. -/
def subscript (container index : Value) : Outcome Value :=
  match container with
  | .list items => pick "list" items id .list (fun v => .badIndex "list" v.typeName) index
  | .tuple items => pick "tuple" items id .tuple (fun v => .badIndex "tuple" v.typeName) index
  | .str s =>
    pick "string" s.toList (fun c => .str (String.singleton c)) (fun cs => .str (String.ofList cs))
      (fun v => .badTextIndex v.typeName) index
  | .bytes data =>
    pick "index" data (fun b => .int b.toNat) .bytes (fun v => .badIndex "byte" v.typeName) index
  | .dict entries => do
    requireKey index
    match lookup index entries with
    | some v => pure v
    | Option.none => throw (.absentKey index.literal)
  | v => throw (.notSubscriptable v.typeName)

end Workflow.Value
