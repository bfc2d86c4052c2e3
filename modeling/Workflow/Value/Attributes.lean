/-
The attributes of values other than dictionaries: the parts of numbers, and
methods, of which only the type can be seen.
-/
import Workflow.Value.Compare

namespace Workflow.Value

def textMethodNames : List String :=
  ["capitalize", "casefold", "center", "count", "encode", "endswith", "expandtabs", "find", "format",
   "format_map", "index", "isalnum", "isalpha", "isascii", "isdecimal", "isdigit", "isidentifier",
   "islower", "isnumeric", "isprintable", "isspace", "istitle", "isupper", "join", "ljust", "lower",
   "lstrip", "maketrans", "partition", "removeprefix", "removesuffix", "replace", "rfind", "rindex",
   "rjust", "rpartition", "rsplit", "rstrip", "split", "splitlines", "startswith", "strip",
   "swapcase", "title", "translate", "upper", "zfill"]

def bytesMethodNames : List String :=
  ["capitalize", "center", "count", "decode", "endswith", "expandtabs", "find", "fromhex", "hex",
   "index", "isalnum", "isalpha", "isascii", "isdigit", "islower", "isspace", "istitle", "isupper",
   "join", "ljust", "lower", "lstrip", "maketrans", "partition", "removeprefix", "removesuffix",
   "replace", "rfind", "rindex", "rjust", "rpartition", "rsplit", "rstrip", "split", "splitlines",
   "startswith", "strip", "swapcase", "title", "translate", "upper", "zfill"]

def setMethodNames : List String :=
  ["add", "clear", "copy", "difference", "difference_update", "discard", "intersection",
   "intersection_update", "isdisjoint", "issubset", "issuperset", "pop", "remove",
   "symmetric_difference", "symmetric_difference_update", "union", "update"]

def methodNames : Value → List String
  | .str _ => textMethodNames
  | .bytes _ => bytesMethodNames
  | .list _ =>
    ["append", "clear", "copy", "count", "extend", "index", "insert", "pop", "remove", "reverse",
     "sort"]
  | .tuple _ => ["count", "index"]
  | .set _ => setMethodNames
  | .dict _ =>
    ["clear", "copy", "fromkeys", "get", "items", "keys", "pop", "popitem", "setdefault", "update",
     "values"]
  | .bool _ | .int _ =>
    ["as_integer_ratio", "bit_count", "bit_length", "conjugate", "from_bytes", "to_bytes"]
  | .float _ => ["as_integer_ratio", "conjugate", "fromhex", "hex", "is_integer"]
  | .complex .. => ["conjugate"]
  | .view .values _ => []
  | .view .. => ["isdisjoint"]
  | .slice .. => ["indices"]
  | _ => []

/-- A part of a number, a view or a slice. -/
def part? (v : Value) (name : String) : Option Value :=
  match v, name with
  | .view .., "mapping" => some (.object "mappingproxy")
  | .slice start _ _, "start" => some start
  | .slice _ stop _, "stop" => some stop
  | .slice _ _ step, "step" => some step
  | v, name =>
    match numeric? v, name with
    | some (.int n), "real" => some (.int n)
    | some (.int n), "numerator" => some (.int n)
    | some (.int _), "imag" => some (.int 0)
    | some (.int _), "denominator" => some (.int 1)
    | some (.float x), "real" => some (.float x)
    | some (.float _), "imag" => some (.float 0.0)
    | some (.complex re _), "real" => some (.float re)
    | some (.complex _ im), "imag" => some (.float im)
    | _, _ => Option.none

def attribute? (v : Value) (name : String) : Option Value :=
  match part? v name with
  | some p => some p
  | Option.none =>
    if (methodNames v).contains name then some (.object "builtin_function_or_method")
    else Option.none

end Workflow.Value
