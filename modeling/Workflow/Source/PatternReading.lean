/-
Reading the patterns of `case` clauses.
-/
import Workflow.Source.Expression

namespace Workflow.Source

open Parse

def signedNumber : Parse Expr := do
  let negative ← acceptSign "-"
  match ← peek with
  | .number value =>
    skip
    return if negative then .unary .minus (.constant value) else .constant value
  | _ => fail

/-- A number, or a sum of a real and an imaginary one. -/
def patternNumber : Parse Expr := do
  let real ← signedNumber
  match ← get with
  | .sign "+" :: .number (.imaginary x) :: rest =>
    set rest
    return .binary .add real (.constant (.imaginary x))
  | .sign "-" :: .number (.imaginary x) :: rest =>
    set rest
    return .binary .sub real (.constant (.imaginary x))
  | _ => return real

/-- The attributes after a name. -/
def attributePath (fuel : Nat) (first : Expr) : Parse Expr :=
  loop fuel
    (fun e => do
      if ← acceptSign "." then return (.attr e (← name), true) else return (e, false))
    first

def dottedPath (fuel : Nat) : Parse Expr := do
  attributePath fuel (.name (← name))

/-- The key of an entry of a mapping pattern: a literal or an attribute. -/
def patternKey (r : Readings) : Parse Expr := do
  match ← peek with
  | .text _ => texts r.expression
  | .keyword "None" => skip; return .constant .none
  | .keyword "True" => skip; return .constant (.bool true)
  | .keyword "False" => skip; return .constant (.bool false)
  | .name _ =>
    let e ← dottedPath r.size
    match e with
    | .name _ => fail
    | e => return e
  | _ => patternNumber

def noPattern : Parse Bool := do
  match ← peek with
  | .name _ | .number _ | .text _ => return false
  | .sign s => return s ∉ ["-", "(", "[", "\x7b", "*"]
  | .keyword w => return w ∉ ["None", "True", "False"]
  | _ => return true

/-- The name that a pattern binds; the underscore binds none. -/
def captureName : Parse String := do
  let id ← name
  if id = "_" then fail
  return id

/-- A pattern, or a star with a name in a sequence. -/
def starPattern (pattern : Parse Pattern) : Parse Pattern := do
  if ← acceptSign "*" then
    let id ← name
    return .star (if id = "_" then none else some id)
  else pattern

/-- The items of a sequence pattern up to the sign that closes it. -/
def sequenceItems (fuel : Nat) (pattern : Parse Pattern) (close : String) :
    Parse (List Pattern × Bool) := do
  if ← acceptSign close then return ([], false)
  let (items, trailing) ← commaList fuel (starPattern pattern) noPattern
  sign close
  return (items, trailing)

/-- One part of a mapping pattern: an entry, or the name that takes the rest. -/
def mappingItem (r : Readings) (pattern : Parse Pattern) : Parse (Sum (Expr × Pattern) String) := do
  if ← acceptSign "**" then return .inr (← captureName)
  else
    let key ← patternKey r
    sign ":"
    return .inl (key, ← pattern)

def noMappingItem : Parse Bool := do
  return (← atSign "\x7d")

/-- A mapping pattern after its opening brace. -/
def mappingPattern (r : Readings) (pattern : Parse Pattern) : Parse Pattern := do
  if ← acceptSign "\x7d" then return .mapping [] none
  let (items, _) ← commaList r.size (mappingItem r pattern) noMappingItem
  sign "\x7d"
  let entries := items.filterMap fun
    | .inl entry => some entry
    | .inr _ => none
  let rests := items.filterMap fun
    | .inr name => some name
    | .inl _ => none
  match rests, items.getLast? with
  | [], _ => return .mapping entries none
  | [rest], some (.inr _) => return .mapping entries (some rest)
  | _, _ => fail

def classItem (pattern : Parse Pattern) : Parse (Sum Pattern (String × Pattern)) := do
  match ← get with
  | .name id :: .sign "=" :: rest =>
    set rest
    return .inr (id, ← pattern)
  | _ => return .inl (← pattern)

/-- A class pattern after its opening parenthesis. -/
def classPattern (fuel : Nat) (pattern : Parse Pattern) (type : Expr) : Parse Pattern := do
  if ← acceptSign ")" then return .instanceOf type [] []
  let (items, _) ← commaList fuel (classItem pattern) (atSign ")")
  sign ")"
  let positional := items.takeWhile fun
    | .inl _ => true
    | .inr _ => false
  let named := items.drop positional.length
  if named.any (fun | .inl _ => true | .inr _ => false) then fail
  return .instanceOf type
    (positional.filterMap fun | .inl p => some p | .inr _ => none)
    (named.filterMap fun | .inr p => some p | .inl _ => none)

/-- A pattern without alternatives. -/
def closedPattern (r : Readings) (pattern : Parse Pattern) : Parse Pattern := do
  match ← peek with
  | .keyword "None" => skip; return .singleton .none
  | .keyword "True" => skip; return .singleton (.bool true)
  | .keyword "False" => skip; return .singleton (.bool false)
  | .text _ => return .value (← texts r.expression)
  | .number _ => return .value (← patternNumber)
  | .sign "-" => return .value (← patternNumber)
  | .sign "(" =>
    skip
    match ← sequenceItems r.size pattern ")" with
    | ([one], false) => if one.isStar then fail else return one
    | (items, _) => return .sequence items
  | .sign "[" =>
    skip
    let (items, _) ← sequenceItems r.size pattern "]"
    return .sequence items
  | .sign "\x7b" => skip; mappingPattern r pattern
  | .name _ =>
    let e ← dottedPath r.size
    if ← acceptSign "(" then classPattern r.size pattern e
    else
      match e with
      | .name "_" => return .wildcard
      | .name id => return .bind id
      | e => return .value e
  | _ => fail

/-- A pattern: alternatives, which may be bound to a name. -/
def pattern (r : Readings) : Nat → Parse Pattern
  | 0 => refuse .malformed
  | fuel + 1 => do
    let first ← closedPattern r (pattern r fuel)
    let options ← loop r.size
      (fun (options : List Pattern) => do
        if ← acceptSign "|" then return ((← closedPattern r (pattern r fuel)) :: options, true)
        else return (options, false))
      [first]
    let p := match options with
      | [one] => one
      | options => .either options.reverse
    if ← acceptKeyword "as" then return .capture p (← captureName) else return p

/-- The patterns of a clause; several, or a trailing comma, make a sequence. -/
def clausePattern (r : Readings) : Parse Pattern := do
  let (items, trailing) ← commaList r.size (starPattern (pattern r r.size)) noPattern
  match items, trailing with
  | [one], false => if one.isStar then fail else return one
  | items, _ => return .sequence items

end Workflow.Source
