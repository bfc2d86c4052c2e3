/-
Reading expressions.

An expression is read by levels, from the loosest operator to the tightest.
Chains of operators are loops; only what stands inside brackets, after a colon
or after an `else` is an expression again, so the readings below are written
for a given reading of inner expressions, and `expression` ties the knot.
Each of its rounds starts after a token or character of its own, which bounds
them by the length of the text.
-/
import Workflow.Source.Escape
import Workflow.Source.Lexer
import Workflow.Source.Parse

namespace Workflow.Source

open Parse

def startsExpression : Parse Bool := do
  match ← peek with
  | .name _ | .number _ | .text _ => return true
  | .sign s => return ["(", "[", "\x7b", "-", "+", "~", "..."].contains s
  | .keyword w => return ["not", "lambda", "await", "None", "True", "False"].contains w
  | _ => return false

def noItem : Parse Bool := do
  return !((← startsExpression) || (← atSign "*"))

/-- Whether a target of an assignment is well formed: a name, an attribute, a subscript, or a list
of targets, some of them starred. -/
def Expr.isTarget : Expr → Bool
  | .name _ | .attr .. | .subscript .. => true
  | .starred e => e.isTarget
  | .tuple items => areTargets items
  | .list items => areTargets items
  | _ => false
termination_by structural e => e
where
  areTargets : List Expr → Bool
  | [] => true
  | e :: rest => e.isTarget && areTargets rest
  termination_by structural es => es

/-- Whether an expression is a name, an attribute or a subscript. -/
def Expr.isSingleTarget : Expr → Bool
  | .name _ | .attr .. | .subscript .. => true
  | _ => false

/-- Several expressions with a comma between or after them are a tuple. -/
def tupleOf : List Expr × Bool → Expr
  | ([one], false) => one
  | (items, _) => .tuple items

section Levels

variable (fuel : Nat) (inner : Parse Expr)

/-- A value that may be bound to a name on the way. -/
def namedExpression : Parse Expr := do
  match ← get with
  | .name id :: .sign ":=" :: rest =>
    set rest
    return .named id (← inner)
  | _ => inner

/-- The signs of the binary operators, from the loosest level to the tightest. -/
def binaryLevels : List (List (String × BinaryOp)) :=
  [[("|", .bitOr)], [("^", .bitXor)], [("&", .bitAnd)], [("<<", .leftShift), (">>", .rightShift)],
   [("+", .add), ("-", .sub)],
   [("*", .mult), ("/", .div), ("//", .floorDiv), ("%", .mod), ("@", .matMult)]]

/-- The text tokens at the front. -/
def takeTexts : List Token → List Quotation × List Token
  | .text q :: rest =>
    let (qs, rest) := takeTexts rest
    (q :: qs, rest)
  | ts => ([], ts)

/-- Reads the expression of a formatted value, as if it stood in brackets. -/
def formattedValue (text : List Char) : Parse Expr := fun ts =>
  match inner (tokens ('(' :: text ++ [')'])) with
  | .ok (e, [.finish]) => .ok (e, ts)
  | _ => refuse .malformed ts

/-- Reads the expressions in the pieces of a format that holds no further format. -/
def plainPieces : List RawPiece → Parse (List Piece)
  | [] => return []
  | .text s :: rest => return .text s :: (← plainPieces rest)
  | .value text conversion _ :: rest => do
    let e ← formattedValue inner text
    return .value e conversion none :: (← plainPieces rest)

/-- Reads the expressions in the pieces of a formatted text. -/
def pieces : List RawPiece → Parse (List Piece)
  | [] => return []
  | .text s :: rest => return .text s :: (← pieces rest)
  | .value text conversion spec :: rest => do
    let e ← formattedValue inner text
    let spec ← match spec with
      | none => pure none
      | some raw => some <$> plainPieces inner (mergeFixed raw)
    return .value e conversion spec :: (← pieces rest)

/-- The pieces that a quotation stands for. -/
def quotationPieces (q : Quotation) : Option (List RawPiece) :=
  if q.formatted then formatPieces q.raw q.body
  else (textOf q.raw q.body).map fun s => [.text s]

def fixedText : List RawPiece → String
  | .text s :: rest => s ++ fixedText rest
  | _ :: rest => fixedText rest
  | [] => ""

/-- The value of adjacent quotations: one text or byte string, or a formatted text when one of them
is formatted. Texts and byte strings do not mix. -/
def texts : Parse Expr := do
  let (qs, rest) := takeTexts (← get)
  if qs.all (·.bytes) then
    match qs.mapM fun q => bytesOf q.raw q.body with
    | some parts =>
      set rest
      return .constant (.bytes parts.flatten)
    | none => refuse .malformed
  else if qs.any (·.bytes) then refuse .malformed
  else
    match qs.mapM quotationPieces with
    | none => refuse .malformed
    | some parts =>
      set rest
      if qs.any (·.formatted) then
        let kept := (mergeFixed parts.flatten).filter fun
          | .text s => !s.isEmpty
          | _ => true
        return .format (← pieces inner kept)
      else return .constant (.str (fixedText parts.flatten) ((qs.head?.map (·.marked)).getD false))

/-- The operand at the tightest level, followed by its attributes, calls and subscripts, is read by
the given reading. -/
def binaryLevel (operand : Parse Expr) : List (List (String × BinaryOp)) → Parse Expr
  | [] => operand
  | level :: tighter => do
    let first ← binaryLevel operand tighter
    loop fuel
      (fun left => do
        match ← peek with
        | .sign s =>
          match level.lookup s with
          | some op =>
            skip
            let right ← binaryLevel operand tighter
            return (.binary op left right, true)
          | none => return (left, false)
        | _ => return (left, false))
      first

def acceptUnary : Parse (Option UnaryOp) := do
  match ← peek with
  | .sign "-" => skip; return some .minus
  | .sign "+" => skip; return some .plus
  | .sign "~" => skip; return some .invert
  | _ => return none

/-- Applies signs, of which the last binds first. -/
def applySigns (signs : List UnaryOp) (e : Expr) : Expr :=
  signs.foldr (fun op e => .unary op e) e

def unarySigns : Parse (List UnaryOp) := do
  let signs ← loop fuel
    (fun (signs : List UnaryOp) => do
      match ← acceptUnary with
      | some op => return (op :: signs, true)
      | none => return (signs, false))
    []
  return signs.reverse

/-- Powers with their signs: a power binds tighter than a sign on its left and looser than one on
its right, and groups to the right. -/
def factor (operand : Parse Expr) : Parse Expr := do
  let signs ← unarySigns fuel
  let first ← operand
  let powers ← loop fuel
    (fun (powers : List (List UnaryOp × Expr)) => do
      if ← acceptSign "**" then
        let signs ← unarySigns fuel
        let e ← operand
        return ((signs, e) :: powers, true)
      else return (powers, false))
    [(signs, first)]
  -- The last power comes first in the list.
  match powers with
  | [] => fail
  | (signs, e) :: before =>
    return before.foldl
      (fun right (signs, base) => applySigns signs (.binary .pow base right)) (applySigns signs e)

inductive Argument where
  | positional (e : Expr)
  | starred (e : Expr)
  | named (name : String) (e : Expr)
  | spread (e : Expr)
  /-- A bare generator, which must be the only argument. -/
  | generator (e : Expr)

/-- The clauses of a comprehension, from its first `for`; `disjunction` and `target` are the readings
of its parts. -/
def clauses (disjunction target : Parse Expr) : Parse (List Clause) := do
  let found ← loop fuel
    (fun (found : List Clause) => do
      let isAsync ← acceptKeyword "async"
      if ← acceptKeyword "for" then
        let place ← target
        keyword "in"
        let iter ← disjunction
        let conditions ← loop fuel
          (fun (conditions : List Expr) => do
            if ← acceptKeyword "if" then
              return ((← disjunction) :: conditions, true)
            else return (conditions, false))
          []
        return (.mk isAsync place iter conditions.reverse :: found, true)
      else if isAsync then fail
      else return (found, false))
    []
  if found.isEmpty then fail
  return found.reverse

/-- Whether a comprehension's clauses come next. -/
def atClauses : Parse Bool := do
  return (← atKeyword "for") || (← atKeyword "async")

variable (bitOr : Parse Expr) (comprehension : Parse (List Clause))

/-- An item of a display: starred, or a value that may be bound on the way. -/
def starNamed : Parse Expr := do
  if ← acceptSign "*" then return .starred (← bitOr) else namedExpression inner

/-- An item of an unbracketed list: starred, or an expression. -/
def starExpression : Parse Expr := do
  if ← acceptSign "*" then return .starred (← bitOr) else inner

/-- Expressions set apart by commas; more than one, or a trailing comma, make a tuple. -/
def starExpressions : Parse Expr := do
  return tupleOf (← commaList fuel (starExpression inner bitOr) noItem)

/-- What follows `yield`. -/
def yieldTail : Parse Expr := do
  if ← acceptKeyword "from" then return .yieldFrom (← inner)
  else if ← noItem then return .yield none
  else return .yield (some (← starExpressions fuel inner bitOr))

/-- What follows an opening parenthesis: a group, a tuple or a generator. -/
def parenthesised : Parse Expr := do
  if ← acceptSign ")" then return .tuple []
  else if ← acceptKeyword "yield" then
    let e ← yieldTail fuel inner bitOr
    sign ")"
    return e
  else
    let first ← starNamed inner bitOr
    if ← atClauses then
      if first.isStarred then fail
      let cs ← comprehension
      sign ")"
      return .comprehension .generator first cs
    else if ← acceptSign "," then
      if ← acceptSign ")" then return .tuple [first]
      let (items, _) ← commaList fuel (starNamed inner bitOr) noItem
      sign ")"
      return .tuple (first :: items)
    else
      if first.isStarred then fail
      sign ")"
      return first

/-- What follows an opening bracket: a list or a list comprehension. -/
def bracketed : Parse Expr := do
  if ← acceptSign "]" then return .list []
  else
    let first ← starNamed inner bitOr
    if ← atClauses then
      if first.isStarred then fail
      let cs ← comprehension
      sign "]"
      return .comprehension .list first cs
    else
      let rest ← if ← acceptSign "," then
          if ← noItem then pure []
          else do
            let (items, _) ← commaList fuel (starNamed inner bitOr) noItem
            pure items
        else pure []
      sign "]"
      return .list (first :: rest)

def dictItem : Parse DictItem := do
  if ← acceptSign "**" then return .spread (← bitOr)
  else
    let key ← inner
    sign ":"
    return .entry key (← inner)

def noDictItem : Parse Bool := do
  return !((← startsExpression) || (← atSign "**"))

/-- The parts of a dictionary display after the first. -/
def dictRest (first : DictItem) : Parse Expr := do
  let rest ← if ← acceptSign "," then
      if ← noDictItem then pure []
      else do
        let (items, _) ← commaList fuel (dictItem inner bitOr) noDictItem
        pure items
    else pure []
  sign "\x7d"
  return .dict (first :: rest)

def setRest (first : Expr) : Parse Expr := do
  let rest ← if ← acceptSign "," then
      if ← noItem then pure []
      else do
        let (items, _) ← commaList fuel (starNamed inner bitOr) noItem
        pure items
    else pure []
  sign "\x7d"
  return .set (first :: rest)

/-- What follows an opening brace: a dictionary, a set, or a comprehension of either. -/
def braced : Parse Expr := do
  if ← acceptSign "\x7d" then return .dict []
  else if ← acceptSign "**" then dictRest fuel inner bitOr (.spread (← bitOr))
  else
    let first ← starNamed inner bitOr
    let isPlain := match first with
      | .starred _ | .named .. => false
      | _ => true
    let isKey ← if isPlain then acceptSign ":" else pure false
    if isKey then
      let value ← inner
      if ← atClauses then
        let cs ← comprehension
        sign "\x7d"
        return .dictComprehension first value cs
      else dictRest fuel inner bitOr (.entry first value)
    else if ← atClauses then
      if first.isStarred then fail
      let cs ← comprehension
      sign "\x7d"
      return .comprehension .set first cs
    else setRest fuel inner bitOr first

def atom : Parse Expr := do
  match ← peek with
  | .name id => skip; return .name id
  | .number value => skip; return .constant value
  | .text _ => texts inner
  | .keyword "None" => skip; return .constant .none
  | .keyword "True" => skip; return .constant (.bool true)
  | .keyword "False" => skip; return .constant (.bool false)
  | .sign "..." => skip; return .constant .ellipsis
  | .sign "(" => skip; parenthesised fuel inner bitOr comprehension
  | .sign "[" => skip; bracketed fuel inner bitOr comprehension
  | .sign "\x7b" => skip; braced fuel inner bitOr comprehension
  | _ => fail

/-- An argument of a call. Only an outermost generator may go without parentheses. -/
def argument : Parse Argument := do
  match ← get with
  | .sign "*" :: rest =>
    set rest
    return .starred (← inner)
  | .sign "**" :: rest =>
    set rest
    return .spread (← inner)
  | .name id :: .sign "=" :: rest =>
    set rest
    return .named id (← inner)
  | _ =>
    let e ← namedExpression inner
    if ← atClauses then return .generator (.comprehension .generator e (← comprehension))
    else return .positional e

/-- Sorts the arguments of a call: those given by position come before the named ones, and none is
unpacked by position after one is by name. -/
def sortArguments (args : List Expr) (keywords : List Keyword) (spread : Bool) :
    List Argument → Option (List Expr × List Keyword)
  | [] => some (args.reverse, keywords.reverse)
  | .positional e :: rest =>
    if keywords.isEmpty then sortArguments (e :: args) keywords spread rest else none
  | .starred e :: rest =>
    if spread then none else sortArguments (.starred e :: args) keywords spread rest
  | .named name e :: rest => sortArguments args (.mk (some name) e :: keywords) spread rest
  | .spread e :: rest => sortArguments args (.mk none e :: keywords) true rest
  | .generator _ :: _ => none

/-- The arguments of a call up to its closing parenthesis; `bare` when an only generator may go
without parentheses. -/
def arguments (bare : Bool) : Parse (List Expr × List Keyword) := do
  if ← acceptSign ")" then return ([], [])
  let (found, trailing) ← commaList fuel (argument inner comprehension) (atSign ")")
  match found, trailing, bare with
  | [.generator e], false, true =>
    sign ")"
    return ([e], [])
  | found, _, _ =>
    match sortArguments [] [] false found with
    | some result =>
      sign ")"
      return result
    | none => fail

/-- A bound of a slice, if one comes next. -/
def sliceBound : Parse (Option Expr) := do
  if ← startsExpression then return some (← inner) else return none

/-- What follows the first bound of a slice and its colon. -/
def sliceTail (lower : Option Expr) : Parse Expr := do
  let upper ← sliceBound inner
  let step ← if ← acceptSign ":" then sliceBound inner else pure none
  return .slice lower upper step

/-- An index or a slice; a starred index makes the subscript a tuple. -/
def sliceItem : Parse Expr := do
  if ← acceptSign ":" then sliceTail inner none
  else if ← acceptSign "*" then return .starred (← inner)
  else
    let first ← namedExpression inner
    let isPlain := match first with
      | .named .. => false
      | _ => true
    let isLower ← if isPlain then acceptSign ":" else pure false
    if isLower then sliceTail inner (some first) else return first

def noSlice : Parse Bool := do
  return !((← startsExpression) || (← atSigns ["*", ":"]))

/-- The indices of a subscript up to its closing bracket. -/
def slices : Parse Expr := do
  let (items, trailing) ← commaList fuel (sliceItem inner) noSlice
  sign "]"
  match items, trailing with
  | [one], false => return if one.isStarred then .tuple [one] else one
  | items, _ => return .tuple items

/-- An atom followed by attributes, calls and subscripts. -/
def primary : Parse Expr := do
  let first ← atom fuel inner bitOr comprehension
  loop fuel
    (fun e => do
      if ← acceptSign "." then return (.attr e (← name), true)
      else if ← acceptSign "(" then
        let (args, keywords) ← arguments fuel inner comprehension true
        return (.call e args keywords, true)
      else if ← acceptSign "[" then return (.subscript e (← slices fuel inner), true)
      else return (e, false))
    first

def awaited : Parse Expr := do
  if ← acceptKeyword "await" then return .await (← primary fuel inner bitOr comprehension)
  else primary fuel inner bitOr comprehension

end Levels

section Operators

variable (fuel : Nat) (inner bitOr : Parse Expr)

def acceptComparison : Parse (Option CompareOp) := do
  match ← get with
  | .sign "==" :: rest => set rest; return some .eq
  | .sign "!=" :: rest => set rest; return some .notEq
  | .sign "<=" :: rest => set rest; return some .ltE
  | .sign "<" :: rest => set rest; return some .lt
  | .sign ">=" :: rest => set rest; return some .gtE
  | .sign ">" :: rest => set rest; return some .gt
  | .keyword "not" :: .keyword "in" :: rest => set rest; return some .notIn
  | .keyword "in" :: rest => set rest; return some .in
  | .keyword "is" :: .keyword "not" :: rest => set rest; return some .isNot
  | .keyword "is" :: rest => set rest; return some .is
  | _ => return none

/-- Comparisons, which chain. -/
def comparison : Parse Expr := do
  let first ← bitOr
  let rest ← loop fuel
    (fun (rest : List Comparison) => do
      match ← acceptComparison with
      | some op => return (.mk op (← bitOr) :: rest, true)
      | none => return (rest, false))
    []
  return if rest.isEmpty then first else .compare first rest.reverse

def inversion : Parse Expr := do
  let count ← loop fuel
    (fun (n : Nat) => do
      if ← acceptKeyword "not" then return (n + 1, true) else return (n, false))
    0
  let e ← comparison fuel bitOr
  return (List.replicate count ()).foldl (fun e _ => .unary .not e) e

/-- Operands joined by one connective. -/
def connected (word : String) (op : BoolOp) (operand : Parse Expr) : Parse Expr := do
  let first ← operand
  let rest ← loop fuel
    (fun (rest : List Expr) => do
      if ← acceptKeyword word then return ((← operand) :: rest, true) else return (rest, false))
    []
  return if rest.isEmpty then first else .boolean op (first :: rest.reverse)

/-- Alternatives of conjunctions. -/
def disjunction : Parse Expr :=
  connected fuel "or" .or (connected fuel "and" .and (inversion fuel bitOr))

end Operators

/-- A list of targets, as a `for` has them; more than one, or a trailing comma, make a tuple. -/
def targets (fuel : Nat) (bitOr : Parse Expr) : Parse Expr := do
  let item : Parse Expr := do
    if ← acceptSign "*" then return .starred (← bitOr) else bitOr
  let e := tupleOf (← commaList fuel item noItem)
  if e.isTarget then return e else fail

/-- A parameter's name with its type hint, where annotations may stand. -/
def param (inner : Parse Expr) (annotated : Bool) (starHint : Parse Expr) :
    Parse (String × Option Expr) := do
  let id ← name
  let hasAnnotation ← if annotated then acceptSign ":" else pure false
  if hasAnnotation then
    if ← acceptSign "*" then return (id, some (.starred (← starHint)))
    else return (id, some (← inner))
  else return (id, none)

/-- The parameters read so far, lists reversed. -/
structure ParamState where
  positional : List Param := []
  regular : List Param := []
  rest : Option Param := none
  starred : Bool := false
  named : List Param := []
  others : Option Param := none
  deriving Inhabited

def fallback (inner : Parse Expr) : Parse (Option Expr) := do
  if ← acceptSign "=" then return some (← inner) else return none

def Param.hasFallback : Param → Bool
  | .mk _ _ fallback => fallback.isSome

/-- The next parameter, or one of the marks `/`, `*` and `**`. -/
def paramStep (inner bitOr : Parse Expr) (annotated : Bool) (st : ParamState) :
    Parse ParamState := do
  if st.others.isSome then fail
  if ← acceptSign "**" then
    let (id, hint) ← param inner annotated fail
    return { st with others := some (.mk id hint none) }
  else if ← acceptSign "*" then
    if st.starred then fail
    if ← atSign "," then return { st with starred := true }
    else
      let (id, hint) ← param inner annotated bitOr
      return { st with starred := true, rest := some (.mk id hint none) }
  else if ← atSign "/" then
    if st.starred || !st.positional.isEmpty || st.regular.isEmpty then fail
    skip
    return { st with positional := st.regular, regular := [] }
  else
    let (id, hint) ← param inner annotated fail
    let value ← fallback inner
    let p : Param := .mk id hint value
    if st.starred then return { st with named := p :: st.named }
    -- After a default every further parameter given by position has one.
    let earlier := (st.regular ++ st.positional).head?
    if value.isNone && ((earlier.map (·.hasFallback)).getD false) then fail
    return { st with regular := p :: st.regular }

/-- The parameters of a function up to the sign that closes them. -/
def params (fuel : Nat) (inner bitOr : Parse Expr) (annotated : Bool) (close : String) :
    Parse Params := do
  if ← atSign close then return .mk [] [] none [] none
  let st ← loop fuel
    (fun (st : ParamState) => do
      let st ← paramStep inner bitOr annotated st
      if ← acceptSign "," then
        if ← atSign close then return (st, false) else return (st, true)
      else return (st, false))
    {}
  unless ← atSign close do fail
  -- A bare star stands before a parameter given by name.
  if st.starred && st.rest.isNone && st.named.isEmpty then fail
  return .mk st.positional.reverse st.regular.reverse st.rest st.named.reverse st.others

/-- The operands of comparisons for a given reading of inner expressions. The clauses of a
comprehension hold operands again; these stand after a `for`, so that the readings are tied by the
same bound. -/
def bitOrWith (fuel : Nat) (inner : Parse Expr) (comprehension : Parse (List Clause))
    (tight : Parse Expr) : Parse Expr :=
  binaryLevel fuel (factor fuel (awaited fuel inner tight comprehension)) binaryLevels

mutual

def bitOrExpression (size : Nat) : Nat → Parse Expr
  | 0 => refuse .malformed
  | fuel + 1 =>
    bitOrWith size (expression size fuel) (comprehensionClauses size fuel)
      (bitOrExpression size fuel)
termination_by structural fuel => fuel

def comprehensionClauses (size : Nat) : Nat → Parse (List Clause)
  | 0 => refuse .malformed
  | fuel + 1 =>
    clauses size (disjunction size (bitOrExpression size fuel))
      (targets size (bitOrExpression size fuel))
termination_by structural fuel => fuel

/-- An expression: a function without a name, or a disjunction that may be chosen by a condition. -/
def expression (size : Nat) : Nat → Parse Expr
  | 0 => refuse .malformed
  | fuel + 1 => do
    if ← acceptKeyword "lambda" then
      let ps ← params size (expression size fuel) (bitOrExpression size fuel) false ":"
      sign ":"
      return .lambda ps (← expression size fuel)
    let body ← disjunction size (bitOrExpression size fuel)
    if ← acceptKeyword "if" then
      let test ← disjunction size (bitOrExpression size fuel)
      keyword "else"
      return .choice test body (← expression size fuel)
    else return body
termination_by structural fuel => fuel

end

structure Readings where
  size : Nat
  expression : Parse Expr
  bitOr : Parse Expr

/-- The readings of expressions in a text of a given length. -/
def readings (length : Nat) : Readings where
  size := length + 2
  expression := Source.expression (length + 2) (4 * length + 8)
  bitOr := bitOrExpression (length + 2) (4 * length + 8)

/-- Reads an expression that stands alone; several, set apart by commas, are a tuple. -/
def readExpression (text : String) : Except SourceError Expr :=
  if text.toList.contains (Char.ofNat 0) then .error .nullCharacter
  else
    let r := readings text.length
    let whole : Parse Expr := do
      let stops : Parse Bool := do return !(← startsExpression)
      let e := tupleOf (← commaList r.size r.expression stops)
      let _ ← loop r.size
        (fun (_ : Unit) => do
          match ← peek with
          | .newline => skip; return ((), true)
          | _ => return ((), false))
        ()
      match ← peek with
      | .finish => return e
      | _ => fail
    match whole (expressionTokens text) with
    | .ok (e, _) => .ok e
    | .error e => .error e.cause

end Workflow.Source
