/-
The text of a value: its literal form (`literal`), and the form in which it is
shown inside other text (`display`), which is the text itself for a text.

An integer with too many digits has no text. `spelled` and `shown` are the two
forms with that refusal.
-/
import Workflow.Number.Shortest
import Workflow.Text.Quoted
import Workflow.Value.Basic
import Workflow.Value.Fault

namespace Workflow.Value

/-- The text of a complex number's part, without the `.0` of an integral one. -/
def partText (x : Float) : String :=
  let text := Number.floatText x
  match text.splitOn ".0" with
  | [whole, ""] => whole
  | _ => text

/-- The text of a complex number: the real part is left out when it is the positive zero. -/
def complexText (re im : Float) : String :=
  if re == 0.0 && !Number.signBit re then partText im ++ "j"
  else
    let imaginary := partText im
    let sign := if imaginary.startsWith "-" then "" else "+"
    "(" ++ partText re ++ sign ++ imaginary ++ "j)"

/-- A number's rank in the order in which a set shows its members: integers come in increasing
order. -/
def intKey? : Value → Option Int
  | .int n => some n
  | .bool b => some (if b then 1 else 0)
  | _ => Option.none

/-- The members of a set in the order in which they are shown. -/
def setOrder (items : List Value) : List Value :=
  match items.mapM intKey? with
  | some keys => ((keys.zip items).mergeSort fun a b => a.1 ≤ b.1).map (·.2)
  | Option.none => items

mutual

/-- The literal form of a value. -/
def literal : Value → String
  | .none => "None"
  | .bool b => if b then "True" else "False"
  | .int n => Number.intText n
  | .float x => Number.floatText x
  | .complex re im => complexText re im
  | .str s => Text.quoted s
  | .bytes data => Text.quotedBytes data
  | .list items => "[" ++ ", ".intercalate (literals items) ++ "]"
  | .tuple items =>
    match literals items with
    | [one] => "(" ++ one ++ ",)"
    | texts => "(" ++ ", ".intercalate texts ++ ")"
  | .set items =>
    if items.isEmpty then "set()" else "\x7b" ++ ", ".intercalate (literals items) ++ "\x7d"
  | .dict entries => "\x7b" ++ ", ".intercalate (entryLiterals entries) ++ "\x7d"
  | .view .keys entries => "dict_keys([" ++ ", ".intercalate (keyLiterals entries) ++ "])"
  | .view .values entries => "dict_values([" ++ ", ".intercalate (valueLiterals entries) ++ "])"
  | .view .items entries => "dict_items([" ++ ", ".intercalate (itemLiterals entries) ++ "])"
  | .slice start stop step =>
    "slice(" ++ literal start ++ ", " ++ literal stop ++ ", " ++ literal step ++ ")"
  | .ellipsis => "Ellipsis"
  | .object name => "<" ++ name ++ ">"

def literals : List Value → List String
  | [] => []
  | v :: rest => literal v :: literals rest

/-- The entries of a dictionary, key and value apart by a colon. -/
def entryLiterals : List (Value × Value) → List String
  | [] => []
  | (k, v) :: rest => (literal k ++ ": " ++ literal v) :: entryLiterals rest

def keyLiterals : List (Value × Value) → List String
  | [] => []
  | (k, _) :: rest => literal k :: keyLiterals rest

def valueLiterals : List (Value × Value) → List String
  | [] => []
  | (_, v) :: rest => literal v :: valueLiterals rest

def itemLiterals : List (Value × Value) → List String
  | [] => []
  | (k, v) :: rest => ("(" ++ literal k ++ ", " ++ literal v ++ ")") :: itemLiterals rest

end

/-- The form in which a value is shown inside other text. -/
def display : Value → String
  | .str s => s
  | v => literal v

mutual

/-- Whether an integer with too many digits is in a value. -/
def hasOverlong : Value → Bool
  | .int n => Number.isOverlong n
  | .list items | .tuple items | .set items => anyOverlong items
  | .dict entries | .view _ entries => anyOverlongEntry entries
  | .slice start stop step => hasOverlong start || hasOverlong stop || hasOverlong step
  | _ => false

def anyOverlong : List Value → Bool
  | [] => false
  | v :: rest => hasOverlong v || anyOverlong rest

def anyOverlongEntry : List (Value × Value) → Bool
  | [] => false
  | (k, v) :: rest => hasOverlong k || hasOverlong v || anyOverlongEntry rest

end

/-- The literal form, unless an integer in it has too many digits. -/
def spelled (v : Value) : Outcome String :=
  if v.hasOverlong then throw .overlongInteger else pure v.literal

/-- The form shown inside other text, unless an integer in it has too many digits. -/
def shown (v : Value) : Outcome String :=
  if v.hasOverlong then throw .overlongInteger else pure v.display

end Workflow.Value
