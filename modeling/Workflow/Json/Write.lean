/-
Writing JSON: entries set apart by a comma and a blank, keys by a colon and a
blank, and only ASCII characters. What JSON has no form for is written as its
text; a key that is no text becomes one, if it is a number, a truth value or
nothing.
-/
import Workflow.Text.Quoted
import Workflow.Value.Fault
import Workflow.Value.Text

namespace Workflow.Json

/-- The escape of a unit of sixteen bits. -/
def unitEscape (n : Nat) : List Char := '\\' :: 'u' :: Text.hexPadded 4 n

def writeChar (c : Char) : List Char :=
  let n := c.toNat
  if c = '"' then ['\\', '"']
  else if c = '\\' then ['\\', '\\']
  else if c = '\n' then ['\\', 'n']
  else if c = '\r' then ['\\', 'r']
  else if c = '\t' then ['\\', 't']
  else if n = 8 then ['\\', 'b']
  else if n = 12 then ['\\', 'f']
  else if 0x20 ≤ n ∧ n < 0x7f then [c]
  else if n < 0x10000 then unitEscape n
  else unitEscape (0xd800 + (n - 0x10000) / 0x400) ++ unitEscape (0xdc00 + (n - 0x10000) % 0x400)

def writeText (s : String) : String :=
  String.ofList ('"' :: s.toList.flatMap writeChar ++ ['"'])

def writeDouble (x : Float) : String :=
  match Number.parts x with
  | .nan => "NaN"
  | .infinite negative => if negative then "-Infinity" else "Infinity"
  | .finite .. => Number.floatText x

def keyText : Value → Outcome String
  | .str s => pure s
  | .bool b => pure (if b then "true" else "false")
  | .none => pure "null"
  | v@(.int _) => v.spelled
  | .float x => pure (writeDouble x)
  | v => throw (.badKey v.typeName)

mutual

/-- A value as JSON. -/
def write : Value → Outcome String
  | .none => pure "null"
  | .bool b => pure (if b then "true" else "false")
  | v@(.int _) => v.spelled
  | .float x => pure (writeDouble x)
  | .str s => pure (writeText s)
  | .list items => do return "[" ++ ", ".intercalate (← writeItems items) ++ "]"
  | .tuple items => do return "[" ++ ", ".intercalate (← writeItems items) ++ "]"
  | .dict entries => do return "\x7b" ++ ", ".intercalate (← writeEntries entries) ++ "\x7d"
  | v => do return writeText (← v.shown)
termination_by structural v => v

def writeItems : List Value → Outcome (List String)
  | [] => pure []
  | v :: rest => do
    let text ← write v
    return text :: (← writeItems rest)
termination_by structural vs => vs

def writeEntries : List (Value × Value) → Outcome (List String)
  | [] => pure []
  | (k, v) :: rest => do
    let key ← keyText k
    let text ← write v
    return (writeText key ++ ": " ++ text) :: (← writeEntries rest)
termination_by structural entries => entries

end

end Workflow.Json
