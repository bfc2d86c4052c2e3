/-
Reading statements and scripts.

A block is a simple line, or an indented run of statements. Blocks inside
blocks are read by the reading given for them, and `block` ties the knot.
-/
import Workflow.Source.PatternReading

namespace Workflow.Source

open Parse

/-- Whether a target of `del` is well formed: like one of an assignment, but nothing is starred. -/
def Expr.isDeletable : Expr → Bool
  | .name _ | .attr .. | .subscript .. => true
  | .tuple items => areDeletable items
  | .list items => areDeletable items
  | _ => false
termination_by structural e => e
where
  areDeletable : List Expr → Bool
  | [] => true
  | e :: rest => e.isDeletable && areDeletable rest
  termination_by structural es => es

/-- The signs of assignments that compute with the old value. -/
def augmentedSigns : List (String × BinaryOp) :=
  [("+=", .add), ("-=", .sub), ("*=", .mult), ("@=", .matMult), ("/=", .div), ("%=", .mod),
   ("&=", .bitAnd), ("|=", .bitOr), ("^=", .bitXor), ("<<=", .leftShift), (">>=", .rightShift),
   ("**=", .pow), ("//=", .floorDiv)]

section Simple

variable (r : Readings)

def expressionList : Parse Expr := starExpressions r.size r.expression r.bitOr

/-- What may stand on the right of an assignment. -/
def assigned : Parse Expr := do
  if ← acceptKeyword "yield" then yieldTail r.size r.expression r.bitOr else expressionList r

/-- The sides of an assignment after its first equals sign: further targets, and the value. -/
def assignment (first : Expr) : Parse Stmt := do
  let (places, value) ← loop r.size
    (fun ((places, value) : List Expr × Expr) => do
      if ← acceptSign "=" then
        if value.isTarget then return ((value :: places, ← assigned r), true) else fail
      else return ((places, value), false))
    ([first], ← assigned r)
  return .assign places.reverse value

def hint (target : Expr) (simple : Bool) : Parse Stmt := do
  let type ← r.expression
  let value ← if ← acceptSign "=" then some <$> assigned r else pure none
  return .annotate target type value simple

def expressionStatement : Parse Stmt := do
  match ← get with
  | .name id :: .sign ":" :: rest =>
    set rest
    hint r (.name id) true
  | _ =>
    let first ← assigned r
    match ← peek with
    | .sign ":" =>
      if first.isSingleTarget then
        skip
        hint r first false
      else fail
    | .sign "=" =>
      if first.isTarget then
        skip
        assignment r first
      else fail
    | .sign s =>
      match augmentedSigns.lookup s with
      | some op =>
        if first.isSingleTarget then
          skip
          return .augment first op (← assigned r)
        else fail
      | none => return .expr first
    | _ => return .expr first

def dottedName : Parse String := do
  let first ← name
  loop r.size
    (fun (s : String) => do
      if ← acceptSign "." then return (s ++ "." ++ (← name), true) else return (s, false))
    first

def givenName : Parse (Option String) := do
  if ← acceptKeyword "as" then return some (← name) else return none

def importedModule : Parse Alias := do
  let module ← dottedName r
  return ⟨module, ← givenName⟩

def importedName : Parse Alias := do
  let id ← name
  return ⟨id, ← givenName⟩

/-- The dots before the module of an import. -/
def leadingDots : Parse Nat :=
  loop r.size
    (fun (n : Nat) => do
      if ← acceptSign "." then return (n + 1, true)
      else if ← acceptSign "..." then return (n + 3, true)
      else return (n, false))
    0

/-- Whether the end of a bracketed list comes next. -/
def never : Parse Bool := pure false

/-- The names after `import` in an import of names. -/
def importedNames : Parse (List Alias) := do
  if ← acceptSign "*" then return [⟨"*", none⟩]
  else if ← acceptSign "(" then
    let (names, _) ← commaList r.size importedName (atSign ")")
    sign ")"
    return names
  else
    let (names, _) ← commaList r.size importedName never
    return names

def fromImport : Parse Stmt := do
  let level ← leadingDots r
  let isBare ← if level = 0 then pure false else atKeyword "import"
  let module ← if isBare then pure none else some <$> dottedName r
  keyword "import"
  return .importFrom module (← importedNames r) level

/-- Whether a simple statement ends here. -/
def atLineEnd : Parse Bool := do
  match ← peek with
  | .newline => return true
  | .sign ";" => return true
  | _ => return false

/-- Whether the next item of a `del` is missing. -/
def noTarget : Parse Bool := do
  return !(← startsExpression)

def deletion : Parse Stmt := do
  let (items, _) ← commaList r.size r.bitOr noTarget
  if items.all (·.isDeletable) then
    unless ← atLineEnd do fail
    return .delete items
  else fail

def simpleStatement : Parse Stmt := do
  match ← peek with
  | .keyword "pass" => skip; return .pass
  | .keyword "break" => skip; return .stop
  | .keyword "continue" => skip; return .next
  | .keyword "return" =>
    skip
    if ← noItem then return .ret none else return .ret (some (← expressionList r))
  | .keyword "raise" =>
    skip
    if ← startsExpression then
      let error ← r.expression
      let cause ← if ← acceptKeyword "from" then some <$> r.expression else pure none
      return .raise (some error) cause
    else return .raise none none
  | .keyword "global" =>
    skip
    let (names, _) ← commaList r.size name never
    return .globalNames names
  | .keyword "nonlocal" =>
    skip
    let (names, _) ← commaList r.size name never
    return .nonlocalNames names
  | .keyword "del" => skip; deletion r
  | .keyword "assert" =>
    skip
    let test ← r.expression
    let message ← if ← acceptSign "," then some <$> r.expression else pure none
    return .assertion test message
  | .keyword "import" =>
    skip
    let (modules, _) ← commaList r.size (importedModule r) never
    return .importNames modules
  | .keyword "from" => skip; fromImport r
  | _ => expressionStatement r

def simpleLine : Parse (List Stmt) := do
  let first ← simpleStatement r
  let statements ← loop r.size
    (fun (statements : List Stmt) => do
      if ← acceptSign ";" then
        match ← peek with
        | .newline => return (statements, false)
        | _ => return ((← simpleStatement r) :: statements, true)
      else return (statements, false))
    [first]
  newline
  return statements.reverse

end Simple

section Compound

variable (r : Readings) (block : Parse (List Stmt))

def colonBlock : Parse (List Stmt) := do
  sign ":"
  block

/-- A condition or other value at the head of a statement. -/
def headValue : Parse Expr := namedExpression r.expression

def elseBlock : Parse (List Stmt) := do
  if ← acceptKeyword "else" then colonBlock block else return []

/-- What follows the first condition of an `if`: its block and the chain of further ones. -/
def branches : Parse Stmt := do
  let test ← headValue r
  let body ← colonBlock block
  let chain ← loop r.size
    (fun (chain : List (Expr × List Stmt)) => do
      if ← acceptKeyword "elif" then
        let test ← headValue r
        return ((test, ← colonBlock block) :: chain, true)
      else return (chain, false))
    [(test, body)]
  let last ← elseBlock block
  match chain.foldl (fun rest (test, body) => [Stmt.branch test body rest]) last with
  | [statement] => return statement
  | _ => fail

def whileLoop : Parse Stmt := do
  let test ← headValue r
  let body ← colonBlock block
  return .loop test body (← elseBlock block)

def forLoop (isAsync : Bool) : Parse Stmt := do
  let target ← targets r.size r.bitOr
  keyword "in"
  let iter ← expressionList r
  let body ← colonBlock block
  return .forEach isAsync target iter body (← elseBlock block)

def withItem : Parse WithItem := do
  let context ← r.expression
  if ← acceptKeyword "as" then
    let target ← if ← acceptSign "*" then Expr.starred <$> r.bitOr else r.bitOr
    if target.isTarget then return ⟨context, some target⟩ else fail
  else return ⟨context, none⟩

/-- Context managers in parentheses. -/
def enclosedItems : Parse (List WithItem) := do
  sign "("
  let (items, _) ← commaList r.size (withItem r) (atSign ")")
  sign ")"
  unless ← atSign ":" do fail
  return items

def openItems : Parse (List WithItem) := do
  let (items, _) ← commaList r.size (withItem r) never
  return items

def withBlock (isAsync : Bool) : Parse Stmt := do
  let items ← if ← atSign "(" then Parse.orElse (enclosedItems r) (openItems r) else openItems r
  return .using isAsync items (← colonBlock block)

/-- The `except` clauses; `group` for clauses with a star. -/
def handlers (group : Bool) : Parse (List Handler) := do
  let found ← loop r.size
    (fun (found : List Handler) => do
      if ← acceptKeyword "except" then
        let starred ← acceptSign "*"
        if starred != group then fail
        let bare ← if group then pure false else atSign ":"
        if bare then return (.mk none none (← colonBlock block) :: found, true)
        else
          let type ← r.expression
          let id ← givenName
          return (.mk (some type) id (← colonBlock block) :: found, true)
      else return (found, false))
    []
  return found.reverse

/-- Whether the next clause of a `try` is one with a star. -/
def atStarredHandler : Parse Bool := do
  match ← get with
  | .keyword "except" :: .sign "*" :: _ => return true
  | _ => return false

def finallyBlock : Parse (List Stmt) := do
  if ← acceptKeyword "finally" then colonBlock block else return []

def tryBlock : Parse Stmt := do
  let body ← colonBlock block
  if ← atKeyword "finally" then
    let ensure ← finallyBlock block
    return .attempt false body [] [] ensure
  else
    unless ← atKeyword "except" do refuse .malformed
    let group ← atStarredHandler
    let hs ← handlers r block group
    let orElse ← elseBlock block
    let ensure ← finallyBlock block
    return .attempt group body hs orElse ensure

def functionTail (isAsync : Bool) (decorators : List Expr) : Parse Stmt := do
  let id ← name
  sign "("
  let ps ← params r.size r.expression r.bitOr true ")"
  sign ")"
  let returns ← if ← acceptSign "->" then some <$> r.expression else pure none
  return .function isAsync id ps returns decorators (← colonBlock block)

def classTail (decorators : List Expr) : Parse Stmt := do
  let id ← name
  let (bases, keywords) ← if ← acceptSign "(" then
      arguments r.size r.expression fail false
    else pure ([], [])
  return .classDef id bases keywords decorators (← colonBlock block)

def decorated : Parse Stmt := do
  let decorators ← loop r.size
    (fun (decorators : List Expr) => do
      if ← acceptSign "@" then
        let e ← headValue r
        newline
        return (e :: decorators, true)
      else return (decorators, false))
    []
  let decorators := decorators.reverse
  if ← acceptKeyword "def" then functionTail r block false decorators
  else if ← acceptKeyword "class" then classTail r block decorators
  else if ← acceptKeyword "async" then
    keyword "def"
    functionTail r block true decorators
  else fail

def asyncStatement : Parse Stmt := do
  if ← acceptKeyword "def" then functionTail r block true []
  else if ← acceptKeyword "for" then forLoop r block true
  else if ← acceptKeyword "with" then withBlock r block true
  else fail

def caseClause : Parse Case := do
  let p ← clausePattern r
  let guard ← if ← acceptKeyword "if" then some <$> headValue r else pure none
  return .mk p guard (← colonBlock block)

/-- Whether the next token is the word `case`, which is no reserved one. -/
def acceptCase : Parse Bool := do
  match ← get with
  | .name "case" :: rest =>
    set rest
    return true
  | _ => return false

def matchSubject : Parse Expr := do
  let (items, trailing) ← commaList r.size (starNamed r.expression r.bitOr) noItem
  match items, trailing with
  | [one], false => if one.isStarred then fail else return one
  | items, _ => return .tuple items

/-- A `match` statement from its first word. -/
def matchStatement : Parse Stmt := do
  skip
  let subject ← matchSubject r
  sign ":"
  newline
  match ← peek with
  | .indent => skip
  | _ => refuse .indentation
  unless ← acceptCase do fail
  let first ← caseClause r block
  let cases ← loop r.size
    (fun (cases : List Case) => do
      if ← acceptCase then return ((← caseClause r block) :: cases, true)
      else return (cases, false))
    [first]
  match ← peek with
  | .dedent => skip
  | _ => fail
  return .select subject cases.reverse

def statements : Parse (List Stmt) := do
  let one (s : Parse Stmt) : Parse (List Stmt) := do return [← s]
  match ← peek with
  | .keyword "if" => skip; one (branches r block)
  | .keyword "while" => skip; one (whileLoop r block)
  | .keyword "for" => skip; one (forLoop r block false)
  | .keyword "with" => skip; one (withBlock r block false)
  | .keyword "try" => skip; one (tryBlock r block)
  | .keyword "def" => skip; one (functionTail r block false [])
  | .keyword "class" => skip; one (classTail r block [])
  | .keyword "async" => skip; one (asyncStatement r block)
  | .sign "@" => one (decorated r block)
  | .name "match" => Parse.orElse (one (matchStatement r block)) (simpleLine r)
  | _ => simpleLine r

/-- Statements up to the end of a block or script. -/
def statementRun : Parse (List Stmt) := do
  let found ← loop r.size
    (fun (found : List (List Stmt)) => do
      match ← peek with
      | .dedent => return (found, false)
      | .finish => return (found, false)
      | _ => return ((← statements r block) :: found, true))
    []
  return found.reverse.flatten

end Compound

/-- A block: a simple line, or an indented run of statements on the lines after. -/
def block (r : Readings) : Nat → Parse (List Stmt)
  | 0 => refuse .malformed
  | fuel + 1 => do
    match ← peek with
    | .newline =>
      skip
      match ← peek with
      | .indent => skip
      | .bad cause => refuse cause
      | _ => refuse .indentation
      let body ← statementRun r (block r fuel)
      match ← peek with
      | .dedent => skip
      | _ => fail
      if body.isEmpty then fail
      return body
    | _ => simpleLine r

/-- Whether the text cannot be cut into tokens to its end. -/
def endsBadly (ts : List Token) : Bool :=
  match ts.getLast? with
  | some (.bad .malformed) => true
  | _ => false

/-- Reads a script, given by its characters. -/
def readCharacters (text : List Char) : Except SourceError (List Stmt) :=
  if text.contains (Char.ofNat 0) then .error .nullCharacter
  else
    let r := readings text.length
    let whole : Parse (List Stmt) := do
      let body ← statementRun r (block r r.size)
      match ← peek with
      | .finish => return body
      | _ => fail
    let ts := scriptTokens text
    match whole ts with
    | .ok (body, _) => .ok body
    | .error e =>
      -- A missing block is reported only of a text that has tokens to its end.
      if e.final ∧ e.cause = .indentation ∧ endsBadly ts then .error .malformed else .error e.cause

def readScript (text : String) : Except SourceError (List Stmt) := readCharacters text.toList

end Workflow.Source
