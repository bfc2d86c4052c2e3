/-
The dynamic values that expressions compute, that a request carries and that
steps hand to each other.

Dictionaries and sets keep the order in which their members were added. Two
keys are one when they are equal as values, so a number is found under any of
its spellings (`Value/Compare`).
-/

namespace Workflow

/-- Which side of a dictionary a view shows. -/
inductive ViewKind where
  | keys
  | values
  | items
  deriving Repr, DecidableEq, Inhabited

inductive Value where
  | none
  | bool (b : Bool)
  | int (n : Int)
  | float (x : Float)
  | complex (re im : Float)
  | str (s : String)
  | bytes (data : List UInt8)
  | list (items : List Value)
  | tuple (items : List Value)
  | set (items : List Value)
  | dict (entries : List (Value × Value))
  | view (kind : ViewKind) (entries : List (Value × Value))
  | slice (start stop step : Value)
  | ellipsis
  /-- A value of which only the name of its type can be seen, such as a bound method. -/
  | object (typeName : String)
  deriving Inhabited

def ViewKind.typeName : ViewKind → String
  | .keys => "dict_keys"
  | .values => "dict_values"
  | .items => "dict_items"

namespace Value

/-- The name of a value's type, as messages give it. -/
def typeName : Value → String
  | .none => "NoneType"
  | .bool _ => "bool"
  | .int _ => "int"
  | .float _ => "float"
  | .complex .. => "complex"
  | .str _ => "str"
  | .bytes _ => "bytes"
  | .list _ => "list"
  | .tuple _ => "tuple"
  | .set _ => "set"
  | .dict _ => "dict"
  | .view kind _ => kind.typeName
  | .slice .. => "slice"
  | .ellipsis => "ellipsis"
  | .object name => name

/-- Whether a value counts as true: nothing, zeros and empty texts and containers do not. -/
def truthy : Value → Bool
  | .none => false
  | .bool b => b
  | .int n => n != 0
  | .float x => x != 0.0
  | .complex re im => re != 0.0 || im != 0.0
  | .str s => !s.isEmpty
  | .bytes data => !data.isEmpty
  | .list items => !items.isEmpty
  | .tuple items => !items.isEmpty
  | .set items => !items.isEmpty
  | .dict entries => !entries.isEmpty
  | .view _ entries => !entries.isEmpty
  | .slice .. => true
  | .ellipsis => true
  | .object _ => true

/-- A dictionary with text keys. -/
def ofFields (fields : List (String × Value)) : Value :=
  .dict (fields.map fun (k, v) => (.str k, v))

/-- The value at a text key of a dictionary's entries. -/
def field? (name : String) : List (Value × Value) → Option Value
  | [] => Option.none
  | (.str k, v) :: rest => if k = name then some v else field? name rest
  | _ :: rest => field? name rest

end Value

/-- The values that names stand for. -/
abbrev Names := List (String × Value)

end Workflow
